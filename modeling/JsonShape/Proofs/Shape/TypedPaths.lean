import JsonShape.Proofs.Inference.Bracketing
/-!
# JsonShape.Proofs.Shape.TypedPaths

The kinds of values at each path, which joining neither loses nor invents.

* `Json.Value.Has`, `Shape.Has`: a path of a value or of a shape leads to a part of a kind. Optional
  marks and unions are looked through, and `unknown` has no path at all.
* `Shape.has_join_iff`: the typed paths of a join are those of both sides.
* `Shape.has_ofValue_iff`: the typed paths of a value are those of its shape.
* `Shape.InferredFrom.has_iff`: so inferred shapes have the typed paths of the values, in whatever
  order they come and however they are cut into shards.
-/

namespace JsonShape

/-! ## Paths of values -/

namespace Json.Value

def Has (v : Value) (path : List Step) (k : Kind) : Prop := ∃ w, v.At path w ∧ w.kind = k

theorem has_of_scalar_iff {v : Value} {l : Scalar} (hv : v.kind = .scalar l) (path : List Step)
    (k : Kind) : v.Has path k ↔ path = [] ∧ k = .scalar l := by
  constructor
  · rintro ⟨w, h, hk⟩
    obtain ⟨hpath, rfl⟩ := at_of_scalar hv h
    exact ⟨hpath, hk.symm.trans hv⟩
  · rintro ⟨rfl, rfl⟩
    exact ⟨v, .here v, hv⟩

theorem array_has_iff (vs : List Value) (path : List Step) (k : Kind) :
    (array vs).Has path k ↔
      (path = [] ∧ k = .array) ∨ ∃ rest, path = .item :: rest ∧ ∃ v ∈ vs, v.Has rest k := by
  constructor
  · rintro ⟨w, h, hk⟩
    cases h with
    | here => exact .inl ⟨rfl, hk.symm⟩
    | item hv h => exact .inr ⟨_, rfl, _, hv, w, h, hk⟩
  · rintro (⟨rfl, rfl⟩ | ⟨rest, rfl, v, hv, w, h, hk⟩)
    · exact ⟨_, .here _, rfl⟩
    · exact ⟨w, .item hv h, hk⟩

theorem object_has_iff (fs : List (Text × Value)) (path : List Step) (k : Kind) :
    (object fs).Has path k ↔
      (path = [] ∧ k = .object) ∨
        ∃ key rest, path = .key key :: rest ∧ ∃ v, Entries.get? key fs = some v ∧ v.Has rest k := by
  constructor
  · rintro ⟨w, h, hk⟩
    cases h with
    | here => exact .inl ⟨rfl, hk.symm⟩
    | key hv h => exact .inr ⟨_, _, rfl, _, hv, w, h, hk⟩
  · rintro (⟨rfl, rfl⟩ | ⟨key, rest, rfl, v, hv, w, h, hk⟩)
    · exact ⟨_, .here _, rfl⟩
    · exact ⟨w, .key hv h, hk⟩

end Json.Value

namespace Shape

/-! ## Paths of shapes -/

inductive Has : Shape → List Step → Kind → Prop where
  | scalar (k : Scalar) : Has (.scalar k) [] (.scalar k)
  | array (s : Shape) : Has (.array s) [] .array
  | object (fs : List (Text × Shape)) : Has (.object fs) [] .object
  | item {s : Shape} {path : List Step} {k : Kind} :
      Has s path k → Has (.array s) (.item :: path) k
  | key {fs : List (Text × Shape)} {key : Text} {s : Shape} {path : List Step} {k : Kind} :
      Entries.get? key fs = some s → Has s path k → Has (.object fs) (.key key :: path) k
  | optional {s : Shape} {path : List Step} {k : Kind} : Has s path k → Has (.optional s) path k
  | union {ms : List Shape} {m : Shape} {path : List Step} {k : Kind} :
      m ∈ ms → Has m path k → Has (.union ms) path k

theorem not_has_unknown (path : List Step) (k : Kind) : ¬Has .unknown path k := by
  intro h
  cases h

theorem has_optional_iff (path : List Step) (k : Kind) (s : Shape) :
    (optional s).Has path k ↔ s.Has path k :=
  ⟨fun h => by cases h; assumption, .optional⟩

theorem has_union_iff (path : List Step) (k : Kind) (ms : List Shape) :
    (union ms).Has path k ↔ ∃ m ∈ ms, m.Has path k := by
  constructor
  · intro h
    cases h with
    | union hm h => exact ⟨_, hm, h⟩
  · rintro ⟨m, hm, h⟩
    exact .union hm h

theorem scalar_has_iff (l : Scalar) (path : List Step) (k : Kind) :
    (scalar l).Has path k ↔ path = [] ∧ k = .scalar l := by
  constructor
  · intro h
    cases h
    exact ⟨rfl, rfl⟩
  · rintro ⟨rfl, rfl⟩
    exact .scalar l

theorem array_has_iff (s : Shape) (path : List Step) (k : Kind) :
    (array s).Has path k ↔
      (path = [] ∧ k = .array) ∨ ∃ rest, path = .item :: rest ∧ s.Has rest k := by
  constructor
  · intro h
    cases h with
    | array => exact .inl ⟨rfl, rfl⟩
    | item h => exact .inr ⟨_, rfl, h⟩
  · rintro (⟨rfl, rfl⟩ | ⟨rest, rfl, h⟩)
    · exact .array s
    · exact .item h

theorem object_has_iff (fs : List (Text × Shape)) (path : List Step) (k : Kind) :
    (object fs).Has path k ↔
      (path = [] ∧ k = .object) ∨
        ∃ key rest, path = .key key :: rest ∧ ∃ s, Entries.get? key fs = some s ∧ s.Has rest k := by
  constructor
  · intro h
    cases h with
    | object => exact .inl ⟨rfl, rfl⟩
    | key hs h => exact .inr ⟨_, _, rfl, _, hs, h⟩
  · rintro (⟨rfl, rfl⟩ | ⟨key, rest, rfl, s, hs, h⟩)
    · exact .object fs
    · exact .key hs h

theorem has_of_same {s t : Shape} {path : List Step} {k : Kind} (h : s.Has path k)
    (hst : s.same t = true) : t.Has path k := by
  induction h generalizing t with
  | scalar k => cases same_inv hst; exact .scalar k
  | array s =>
    obtain ⟨b, rfl, -⟩ := same_inv hst
    exact .array b
  | object fs =>
    obtain ⟨gs, rfl, -⟩ := same_inv hst
    exact .object gs
  | item _ ih =>
    obtain ⟨b, rfl, hab⟩ := same_inv hst
    exact .item (ih hab)
  | key hs _ ih =>
    obtain ⟨gs, rfl, -⟩ := same_inv hst
    obtain ⟨t, ht, hst⟩ := exists_get?_of_same hst hs
    exact .key ht (ih hst)
  | optional _ ih =>
    obtain ⟨b, rfl, hab⟩ := same_inv hst
    exact .optional (ih hab)
  | union hm _ ih =>
    obtain ⟨ns, rfl, -, hms⟩ := same_inv hst
    obtain ⟨n, hn, hmn⟩ := hms _ hm
    exact .union hn (ih hmn)

theorem respected_has (path : List Step) (k : Kind) : Respected fun s => s.Has path k :=
  fun _ _ hs h ht => has_of_same ht (same_symm hs h)

theorem has_optionalOf_iff (s : Shape) (path : List Step) (k : Kind) :
    s.optionalOf.Has path k ↔ s.Has path k :=
  optionalOf_iff (P := fun s => s.Has path k) (has_optional_iff path k) s

/-! ## Joining -/

theorem has_join_iff {s t : Shape} (hs : s.WellFormed) (ht : t.WellFormed) (path : List Step)
    (k : Kind) : (s.join t).Has path k ↔ s.Has path k ∨ t.Has path k := by
  induction s, t using join_ind generalizing path with
  | unknown_left t =>
    rw [unknown_join]
    exact ⟨.inr, fun h => h.resolve_left (not_has_unknown path k)⟩
  | unknown_right s =>
    rw [join_unknown]
    exact ⟨.inl, fun h => h.resolve_right (not_has_unknown path k)⟩
  | scalar l =>
    rw [scalar_join_self]
    exact or_self_iff.symm
  | optional s t ih =>
    have := ih (wellFormed_optional_iff.1 hs) (wellFormed_optional_iff.1 ht) path
    rw [has_optional_iff, has_optional_iff, ← this]
    exact has_optional_iff path k (s.join t)
  | array s t ih =>
    have ih := ih (wellFormed_array_iff.1 hs) (wellFormed_array_iff.1 ht)
    show (array (s.join t)).Has path k ↔ _
    simp only [array_has_iff, ih]
    constructor
    · rintro (h | ⟨rest, hpath, h | h⟩)
      · exact .inl (.inl h)
      · exact .inl (.inr ⟨rest, hpath, h⟩)
      · exact .inr (.inr ⟨rest, hpath, h⟩)
    · rintro ((h | ⟨rest, hpath, h⟩) | (h | ⟨rest, hpath, h⟩))
      · exact .inl h
      · exact .inr ⟨rest, hpath, .inl h⟩
      · exact .inl h
      · exact .inr ⟨rest, hpath, .inr h⟩
  | object fs gs ih =>
    obtain ⟨-, hfs⟩ := wellFormed_object_iff.1 hs
    obtain ⟨-, hgs⟩ := wellFormed_object_iff.1 ht
    have hfield : ∀ key rest, (∃ u, Entries.get? key (joinFields fs gs) = some u ∧ u.Has rest k) ↔
        (∃ s, Entries.get? key fs = some s ∧ s.Has rest k) ∨
          ∃ t, Entries.get? key gs = some t ∧ t.Has rest k := by
      intro key rest
      rw [get?_joinFields]
      cases hf : Entries.get? key fs with
      | none => cases Entries.get? key gs <;> simp [joinField, has_optionalOf_iff]
      | some s =>
        cases hg : Entries.get? key gs with
        | none => simp [joinField, has_optionalOf_iff]
        | some t =>
          have hmem := Entries.mem_of_get?_eq_some hf
          have := ih _ hmem t hg (hfs _ hmem) (hgs _ (Entries.mem_of_get?_eq_some hg)) rest
          simp [joinField, this]
    rw [object_join]
    simp only [object_has_iff, hfield]
    constructor
    · rintro (h | ⟨key, rest, hpath, h | h⟩)
      · exact .inl (.inl h)
      · exact .inl (.inr ⟨key, rest, hpath, h⟩)
      · exact .inr (.inr ⟨key, rest, hpath, h⟩)
    · rintro ((h | ⟨key, rest, hpath, h⟩) | (h | ⟨key, rest, hpath, h⟩))
      · exact .inl h
      · exact .inr ⟨key, rest, hpath, .inl h⟩
      · exact .inl h
      · exact .inr ⟨key, rest, hpath, .inr h⟩
  | union s t h =>
    have hst := forall_mem_pair hs ht
    rw [h, unionOf_iff (respected_has path k) (has_union_iff path k) hst]
    simp

theorem has_shape_iff {α : Type} {f : α → Shape} {b : Bracketing α}
    (hb : ∀ a ∈ b.leaves, (f a).WellFormed) (path : List Step) (k : Kind) :
    (b.shape f).Has path k ↔ ∃ a ∈ b.leaves, (f a).Has path k := by
  induction b with
  | none => simp [Bracketing.shape, Bracketing.leaves, not_has_unknown]
  | leaf a => simp [Bracketing.shape, Bracketing.leaves]
  | node l r ihl ihr =>
    simp only [Bracketing.leaves, List.mem_append] at hb
    have hl : ∀ a ∈ l.leaves, (f a).WellFormed := fun a ha => hb a (.inl ha)
    have hr : ∀ a ∈ r.leaves, (f a).WellFormed := fun a ha => hb a (.inr ha)
    rw [Bracketing.shape,
      has_join_iff (Bracketing.wellFormed_shape hl) (Bracketing.wellFormed_shape hr), ihl hl, ihr hr]
    simp only [Bracketing.leaves, List.mem_append, or_and_right, exists_or]

/-! ## Inferring -/

theorem has_ofValue_of_scalar_iff {v : Json.Value} {l : Scalar} (hv : v.kind = .scalar l)
    (path : List Step) (k : Kind) : (ofValue v).Has path k ↔ v.Has path k := by
  rw [ofValue_of_scalar hv, scalar_has_iff, Json.Value.has_of_scalar_iff hv]

theorem has_ofValue_iff {v : Json.Value} (hv : v.WellFormed) (path : List Step) (k : Kind) :
    (ofValue v).Has path k ↔ v.Has path k := by
  induction v generalizing path with
  | array vs ih =>
    have hvs := Json.Value.wellFormed_array_iff.1 hv
    have hleaves : (Bracketing.left vs).leaves = vs := Bracketing.leaves_left vs
    have hitems : ∀ rest, (infer vs).Has rest k ↔ ∃ v ∈ vs, v.Has rest k := by
      intro rest
      rw [← Bracketing.shape_left_ofValue,
        has_shape_iff (by rw [hleaves]; exact fun v h => wellFormed_ofValue (hvs v h)), hleaves]
      constructor
      · rintro ⟨v, hmem, h⟩
        exact ⟨v, hmem, (ih v hmem (hvs v hmem) rest).1 h⟩
      · rintro ⟨v, hmem, h⟩
        exact ⟨v, hmem, (ih v hmem (hvs v hmem) rest).2 h⟩
    rw [ofValue_array, array_has_iff, Json.Value.array_has_iff]
    simp only [hitems]
  | object es ih =>
    obtain ⟨-, hes⟩ := Json.Value.wellFormed_object_iff.1 hv
    have hfield : ∀ key rest, (∃ s, Entries.get? key (ofFields es) = some s ∧ s.Has rest k) ↔
        ∃ v, Entries.get? key es = some v ∧ v.Has rest k := by
      intro key rest
      rw [get?_ofFields]
      cases hget : Entries.get? key es with
      | none => simp
      | some v =>
        have hmem := Entries.mem_of_get?_eq_some hget
        simp [ih _ hmem (hes _ hmem) rest]
    rw [ofValue_object, object_has_iff, Json.Value.object_has_iff]
    simp only [hfield]
  | _ => exact has_ofValue_of_scalar_iff rfl path k

theorem has_shape_ofValue_iff {b : Bracketing Json.Value} (hb : ∀ v ∈ b.leaves, v.WellFormed)
    (path : List Step) (k : Kind) :
    (b.shape ofValue).Has path k ↔ ∃ v ∈ b.leaves, v.Has path k := by
  rw [has_shape_iff fun v hv => wellFormed_ofValue (hb v hv)]
  constructor
  · rintro ⟨v, hv, h⟩
    exact ⟨v, hv, (has_ofValue_iff (hb v hv) path k).1 h⟩
  · rintro ⟨v, hv, h⟩
    exact ⟨v, hv, (has_ofValue_iff (hb v hv) path k).2 h⟩

theorem InferredFrom.has_iff {vs : List Json.Value} {s : Shape} (hvs : ∀ v ∈ vs, v.WellFormed)
    (h : InferredFrom vs s) (path : List Step) (k : Kind) :
    s.Has path k ↔ ∃ v ∈ vs, v.Has path k := by
  obtain ⟨b, hb, rfl⟩ := h.exists_bracketing
  rw [has_shape_ofValue_iff fun v hv => hvs v (hb.mem_iff.1 hv)]
  simp only [hb.mem_iff]

/-- Joining neither loses nor invents a typed path, and neither does reading the shape of a value.
So the typed paths of what is inferred are those of the values, whatever their order and however
they are cut into shards. -/
theorem typed_paths_exact :
    (∀ s t : Shape, s.WellFormed → t.WellFormed → ∀ path k,
      (s.join t).Has path k ↔ s.Has path k ∨ t.Has path k) ∧
    (∀ v : Json.Value, v.WellFormed → ∀ path k, (ofValue v).Has path k ↔ v.Has path k) ∧
    ∀ vs ws : List Json.Value, (∀ v ∈ vs, v.WellFormed) → ws.Perm vs →
      (∀ path k, (infer ws).Has path k ↔ ∃ v ∈ vs, v.Has path k) ∧
      ∀ (workers : Option Int) (size : Int), 1 ≤ size → (∀ n ∈ workers, 0 < n) →
        ∃ s, (inferSharded ws workers size).result = .ok s ∧
          ∀ path k, s.Has path k ↔ ∃ v ∈ vs, v.Has path k := by
  refine ⟨fun s t hs ht => has_join_iff hs ht, fun v hv => has_ofValue_iff hv, ?_⟩
  intro vs ws hvs hperm
  have hws : ∀ v ∈ ws, v.WellFormed := fun v hv => hvs v (hperm.mem_iff.1 hv)
  refine ⟨fun path k => ?_, fun workers size hsize hworkers => ?_⟩
  · rw [InferredFrom.infer.has_iff hws]
    simp only [hperm.mem_iff]
  · have hok := inferSharded_result_eq_ok ws hsize hworkers
    refine ⟨_, hok, fun path k => ?_⟩
    rw [(InferredFrom.sharded hok).has_iff hws]
    simp only [hperm.mem_iff]

/-- Two objects with different keys and an array, in reverse and in shards of two. -/
theorem typed_paths_exact_reversed :
    let vs : List Json.Value :=
      [.object [("a", .int 1)], .object [("b", .array [.null])], .array [.string "x"]]
    (∀ v ∈ vs, v.WellFormed) ∧ vs.reverse.Perm vs ∧
      ∃ s, (inferSharded vs.reverse (some 1) 2).result = .ok s ∧
        s.Has [.key "b", .item] (.scalar .null) ∧ ¬s.Has [.item, .item] .array := by
  intro vs
  have hscalar : ∀ {v : Json.Value} {k : Scalar}, v.kind = .scalar k → v.WellFormed := .scalar
  have hvs : ∀ v ∈ vs, v.WellFormed := by
    simp [vs, Json.Value.wellFormed_object_iff, Json.Value.wellFormed_array_iff, Entries.Distinct,
      Entries.keys, hscalar (v := .int 1) rfl, hscalar (v := .null) rfl,
      hscalar (v := .string "x") rfl]
  obtain ⟨-, -, hfold⟩ := typed_paths_exact
  have hperm := List.reverse_perm vs
  obtain ⟨s, hs, hpaths⟩ := (hfold vs vs.reverse hvs hperm).2 (some 1) 2 (by decide) (by simp)
  refine ⟨hvs, hperm, s, hs, ?_, ?_⟩
  · rw [hpaths]
    exact ⟨.object [("b", .array [.null])], by simp [vs], .null,
      .key (by simp [Entries.get?]) (.item (List.mem_singleton.2 rfl) (.here _)), rfl⟩
  · rw [hpaths]
    rintro ⟨v, hv, w, h, -⟩
    simp only [vs, List.mem_cons, List.not_mem_nil, or_false] at hv
    rcases hv with rfl | rfl | rfl
    · cases h
    · cases h
    · cases h with
      | item hv h =>
        rw [List.mem_singleton.1 hv] at h
        cases h

end Shape

end JsonShape
