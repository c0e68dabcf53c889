import JsonShape.Proofs.Inference.Parts
import JsonShape.Proofs.Shape.TypedPaths
/-!
# JsonShape.Proofs.Inference.Growth

Shapes that grow without end. A field that is missing from one value and present in another is put
into a union with its own optional form each time it comes back, and made optional again each time it
is missing.

* `Shape.Omits`: where two shapes are merged, one lacks a field of the other.
* `Shape.lt_size_rounds`: joining two such shapes in turn gives a larger shape in every round.
* `Shape.not_omits_of_keyComplete`: values whose objects have the same keys have no such shapes.
-/

namespace JsonShape

namespace Shape

/-- Where `s` and `t` are merged, `s` lacks a field of `t` that is not optional yet. -/
inductive Omits : Shape → Shape → Prop where
  | here {fs gs : List (Text × Shape)} {key : Text} {x : Shape} : Entries.get? key fs = none →
      Entries.get? key gs = some x → x.isOptional = false → Omits (.object fs) (.object gs)
  | key {fs gs : List (Text × Shape)} {key : Text} {x y : Shape} : Entries.get? key fs = some x →
      Entries.get? key gs = some y → Omits x y → Omits (.object fs) (.object gs)
  | item {s t : Shape} : Omits s t → Omits (.array s) (.array t)
  | optional {s t : Shape} : Omits s t → Omits (.optional s) (.optional t)

/-! ## Fields of which something is known -/

/-- Every field that merging comes to is of some kind. An unknown one would join with its optional form
and not grow. -/
inductive Known : Shape → Prop where
  | unknown : Known .unknown
  | scalar (k : Scalar) : Known (.scalar k)
  | optional {s : Shape} : Known s → Known (.optional s)
  | array {s : Shape} : Known s → Known (.array s)
  | object {fs : List (Text × Shape)} :
      (∀ key s, Entries.get? key fs = some s → ∃ k, s.Has [] k) →
      (∀ key s, Entries.get? key fs = some s → Known s) → Known (.object fs)
  | union (ms : List Shape) : Known (.union ms)

theorem known_optional_iff {s : Shape} : (optional s).Known ↔ s.Known :=
  ⟨fun h => by cases h; assumption, .optional⟩

theorem known_array_iff {s : Shape} : (array s).Known ↔ s.Known :=
  ⟨fun h => by cases h; assumption, .array⟩

theorem known_object_iff {fs : List (Text × Shape)} : (object fs).Known ↔
    ∀ key s, Entries.get? key fs = some s → (∃ k, s.Has [] k) ∧ s.Known := by
  constructor
  · rintro (_ | _ | _ | _ | ⟨hhas, hknown⟩) key s hs
    exact ⟨hhas key s hs, hknown key s hs⟩
  · exact fun h => .object (fun key s hs => (h key s hs).1) fun key s hs => (h key s hs).2

theorem known_optionalOf {s : Shape} (hs : s.Known) : s.optionalOf.Known := by
  cases s with
  | optional s => exact hs
  | _ => exact .optional hs

theorem known_join {s t : Shape} (hswf : s.WellFormed) (htwf : t.WellFormed) (hs : s.Known)
    (ht : t.Known) : (s.join t).Known := by
  induction s, t using join_ind with
  | unknown_left t => exact ht
  | unknown_right s => rw [join_unknown]; exact hs
  | scalar k => rw [scalar_join_self]; exact hs
  | optional s t ih =>
    exact .optional (ih (wellFormed_optional_iff.1 hswf) (wellFormed_optional_iff.1 htwf)
      (known_optional_iff.1 hs) (known_optional_iff.1 ht))
  | array s t ih =>
    exact .array (ih (wellFormed_array_iff.1 hswf) (wellFormed_array_iff.1 htwf)
      (known_array_iff.1 hs) (known_array_iff.1 ht))
  | object fs gs ih =>
    obtain ⟨-, hfs⟩ := wellFormed_object_iff.1 hswf
    obtain ⟨-, hgs⟩ := wellFormed_object_iff.1 htwf
    have hs := known_object_iff.1 hs
    have ht := known_object_iff.1 ht
    have hone : ∀ x : Shape, (∃ k, x.Has [] k) ∧ x.Known →
        (∃ k, x.optionalOf.Has [] k) ∧ x.optionalOf.Known := by
      rintro x ⟨⟨k, hk⟩, hx⟩
      exact ⟨⟨k, (has_optionalOf_iff x [] k).2 hk⟩, known_optionalOf hx⟩
    rw [object_join]
    refine known_object_iff.2 fun key u hu => ?_
    rcases get?_joinFields_cases hu with ⟨x, y, hf, hg, rfl⟩ | ⟨x, hf, -, rfl⟩ | ⟨y, -, hg, rfl⟩
    · have hmem := Entries.mem_of_get?_eq_some hf
      have hxwf := hfs _ hmem
      have hywf := hgs _ (Entries.mem_of_get?_eq_some hg)
      obtain ⟨⟨k, hk⟩, hx⟩ := hs key x hf
      exact ⟨⟨k, (has_join_iff hxwf hywf [] k).2 (.inl hk)⟩,
        ih _ hmem y hg hxwf hywf hx (ht key y hg).2⟩
    · exact hone x (hs key x hf)
    · exact hone y (ht key y hg)
  | union s t h => rw [h]; exact .union _

theorem known_joinAll {ss : List Shape} (hss : ∀ s ∈ ss, s.WellFormed ∧ s.Known) :
    (joinAll ss).Known := by
  have hclosed : ∀ {s t : Shape}, s.WellFormed ∧ s.Known → t.WellFormed ∧ t.Known →
      (s.join t).WellFormed ∧ (s.join t).Known :=
    fun hs ht => ⟨wellFormed_join hs.1 ht.1, known_join hs.1 ht.1 hs.2 ht.2⟩
  exact (foldl_join_closed hclosed hss ⟨.unknown, .unknown⟩).2

theorem known_ofValue {v : Json.Value} (hv : v.WellFormed) : (ofValue v).Known := by
  induction v with
  | array vs ih =>
    have hvs := Json.Value.wellFormed_array_iff.1 hv
    rw [ofValue_array]
    refine .array (known_joinAll fun s hs => ?_)
    obtain ⟨v, hmem, rfl⟩ := List.mem_map.1 hs
    exact ⟨wellFormed_ofValue (hvs v hmem), ih v hmem (hvs v hmem)⟩
  | object es ih =>
    obtain ⟨-, hes⟩ := Json.Value.wellFormed_object_iff.1 hv
    rw [ofValue_object]
    refine known_object_iff.2 fun key s hs => ?_
    rw [get?_ofFields] at hs
    obtain ⟨v, hget, rfl⟩ := Option.map_eq_some_iff.1 hs
    have hmem := Entries.mem_of_get?_eq_some hget
    refine ⟨⟨v.kind, ?_⟩, ih _ hmem (hes _ hmem)⟩
    exact (has_ofValue_iff (hes _ hmem) [] v.kind).2 ⟨v, .here v, rfl⟩
  | _ => exact .scalar _

/-! ## Joining two shapes in turn -/

/-- `t` and `s` joined in turn, `n` times each. -/
def rounds (s t : Shape) : Nat → Shape
  | 0 => .unknown
  | n + 1 => ((rounds s t n).join t).join s

theorem joinAll_append (ss ts : List Shape) : joinAll (ss ++ ts) = ts.foldl join (joinAll ss) :=
  List.foldl_append

theorem joinAll_replicate (s t : Shape) (n : Nat) :
    joinAll (List.replicate n [t, s]).flatten = rounds s t n := by
  induction n with
  | zero => rfl
  | succ n ih =>
    rw [List.replicate_succ', List.flatten_append, joinAll_append, ih]
    rfl

theorem rounds_array (s t : Shape) (n : Nat) :
    rounds (.array s) (.array t) (n + 1) = .array (rounds s t (n + 1)) := by
  induction n with
  | zero => rfl
  | succ n ih => rw [rounds, ih]; rfl

theorem rounds_optional (s t : Shape) (n : Nat) :
    rounds (.optional s) (.optional t) (n + 1) = .optional (rounds s t (n + 1)) := by
  induction n with
  | zero => rfl
  | succ n ih => rw [rounds, ih]; rfl

theorem rounds_key {fs gs : List (Text × Shape)} {key : Text} {x y : Shape}
    (hx : Entries.get? key fs = some x) (hy : Entries.get? key gs = some y) (n : Nat) :
    ∃ es, rounds (.object fs) (.object gs) (n + 1) = .object es ∧
      Entries.get? key es = some (rounds x y (n + 1)) := by
  induction n with
  | zero =>
    refine ⟨joinFields gs fs, rfl, ?_⟩
    rw [get?_joinFields, hx, hy]
    rfl
  | succ n ih =>
    obtain ⟨es, hes, hget⟩ := ih
    refine ⟨joinFields (joinFields es gs) fs, by rw [rounds, hes]; rfl, ?_⟩
    rw [get?_joinFields, get?_joinFields, hget, hx, hy]
    rfl

theorem join_of_isOptional {z x : Shape} (hz : z.isOptional = true) (hx : x.isOptional = false)
    (hne : x ≠ .unknown) : z.join x = unionOf [z, x] := by
  cases z with
  | optional z =>
    cases x with
    | unknown => exact absurd rfl hne
    | optional x => cases hx
    | _ => rfl
  | _ => cases hz

theorem size_lt_size_unionOf {z x : Shape} (hz : z.isOptional = true) :
    z.size < (unionOf [z, x]).size := by
  have hmem : z ∈ firsts ([z, x].flatMap alternatives) := by
    cases z with
    | optional z => exact List.mem_cons_self
    | _ => cases hz
  have := size_le_sizeMembers hmem
  simp only [unionOf, size]
  omega

/-- A field that comes and goes: each round adds a union and an optional mark. -/
theorem rounds_here {fs gs : List (Text × Shape)} {key : Text} {x : Shape}
    (hfs : Entries.get? key fs = none) (hx : Entries.get? key gs = some x)
    (hopt : x.isOptional = false) (hne : x ≠ .unknown) (n : Nat) :
    ∃ es z, rounds (.object fs) (.object gs) (n + 1) = .object es ∧
      Entries.get? key es = some z ∧ z.isOptional = true ∧ n < z.size := by
  have hoptionalOf : ∀ s : Shape, s.optionalOf.isOptional = true := fun s => by cases s <;> rfl
  induction n with
  | zero =>
    refine ⟨joinFields gs fs, x.optionalOf, rfl, ?_, hoptionalOf x, size_pos _⟩
    rw [get?_joinFields, hfs, hx]
    rfl
  | succ n ih =>
    -- `t` puts the optional field of the round before into a union, `s` makes the union optional.
    obtain ⟨es, z, hes, hget, hz, hlt⟩ := ih
    refine ⟨joinFields (joinFields es gs) fs, (z.join x).optionalOf, by rw [rounds, hes]; rfl, ?_,
      hoptionalOf _, ?_⟩
    · rw [get?_joinFields, get?_joinFields, hget, hfs, hx]
      rfl
    · rw [join_of_isOptional hz hopt hne]
      have := size_lt_size_unionOf (x := x) hz
      show n + 1 < (unionOf [z, x]).size + 1
      omega

theorem size_lt_size_object {fs : List (Text × Shape)} {key : Text} {s : Shape}
    (h : Entries.get? key fs = some s) : s.size < (object fs).size := by
  have := size_le_sizeFields (Entries.mem_of_get?_eq_some h)
  simp only [size] at *
  omega

theorem ne_unknown_of_has {s : Shape} {path : List Step} {k : Kind} (h : s.Has path k) :
    s ≠ .unknown := by
  rintro rfl
  exact not_has_unknown path k h

theorem lt_size_rounds {s t : Shape} (h : s.Omits t) (ht : t.Known) (n : Nat) :
    n < (rounds s t (n + 1)).size := by
  induction h with
  | @here fs gs key x hfs hx hopt =>
    obtain ⟨⟨k, hk⟩, -⟩ := known_object_iff.1 ht key x hx
    obtain ⟨es, z, hes, hget, -, hlt⟩ := rounds_here hfs hx hopt (ne_unknown_of_has hk) n
    have := size_lt_size_object hget
    rw [hes]
    omega
  | @key fs gs key x y hx hy _ ih =>
    have ih := ih (known_object_iff.1 ht key y hy).2
    obtain ⟨es, hes, hget⟩ := rounds_key hx hy n
    have := size_lt_size_object hget
    rw [hes]
    omega
  | @item s t _ ih =>
    have := ih (known_array_iff.1 ht)
    rw [rounds_array, size]
    omega
  | @optional s t _ ih =>
    have := ih (known_optional_iff.1 ht)
    rw [rounds_optional, size]
    omega

/-- Two values whose shapes omit a field of each other, read in turn, give shapes of any size. -/
theorem not_bounded_of_omits {vs : List Json.Value} {u v : Json.Value} (hu : u ∈ vs) (hv : v ∈ vs)
    (hwf : v.WellFormed) (h : (ofValue u).Omits (ofValue v)) :
    ¬∃ B, ∀ ws, (∀ w ∈ ws, w ∈ vs) → (infer ws).size ≤ B := by
  rintro ⟨B, hB⟩
  have hmem : ∀ w ∈ (List.replicate (B + 1) [v, u]).flatten, w ∈ vs := by
    intro w hw
    obtain ⟨l, hl, hw⟩ := List.mem_flatten.1 hw
    rw [List.eq_of_mem_replicate hl] at hw
    simp only [List.mem_cons, List.not_mem_nil, or_false] at hw
    rcases hw with rfl | rfl
    · exact hv
    · exact hu
  have hrounds : infer (List.replicate (B + 1) [v, u]).flatten =
      rounds (ofValue u) (ofValue v) (B + 1) := by
    rw [infer, List.map_flatten, List.map_replicate, ← joinAll_replicate]
    rfl
  have hle := hB _ hmem
  have hlt := lt_size_rounds h (known_ofValue hwf) B
  rw [hrounds] at hle
  omega

/-! ## Values with the same keys -/

theorem Omits.exists_path {s t : Shape} (h : s.Omits t) (ht : t.Known) :
    ∃ path key, (∃ k, t.Has (path ++ [.key key]) k) ∧ s.Has path .object ∧
      ∀ k, ¬s.Has (path ++ [.key key]) k := by
  induction h with
  | @here fs gs key x hfs hx _ =>
    obtain ⟨⟨k, hk⟩, -⟩ := known_object_iff.1 ht key x hx
    refine ⟨[], key, ⟨k, .key hx hk⟩, .object fs, fun k hk => ?_⟩
    cases hk with
    | key hs _ =>
      rw [hfs] at hs
      cases hs
  | @key fs gs key x y hx hy _ ih =>
    obtain ⟨path, key', ⟨k, hk⟩, hobject, hno⟩ := ih (known_object_iff.1 ht key y hy).2
    refine ⟨.key key :: path, key', ⟨k, .key hy hk⟩, .key hx hobject, fun k hk => ?_⟩
    cases hk with
    | key hs hk =>
      rw [hx] at hs
      cases hs
      exact hno k hk
  | item _ ih =>
    obtain ⟨path, key, ⟨k, hk⟩, hobject, hno⟩ := ih (known_array_iff.1 ht)
    refine ⟨.item :: path, key, ⟨k, .item hk⟩, .item hobject, fun k hk => ?_⟩
    cases hk with
    | item hk => exact hno k hk
  | optional _ ih =>
    obtain ⟨path, key, ⟨k, hk⟩, hobject, hno⟩ := ih (known_optional_iff.1 ht)
    refine ⟨path, key, ⟨k, .optional hk⟩, .optional hobject, fun k hk => ?_⟩
    exact hno k ((has_optional_iff _ k _).1 hk)

theorem not_omits_of_keyComplete {vs : List Json.Value} (hvs : ∀ v ∈ vs, v.WellFormed)
    (hkeys : KeyComplete vs) {u v : Json.Value} (hu : u ∈ vs) (hv : v ∈ vs) :
    ¬(ofValue u).Omits (ofValue v) := by
  intro h
  obtain ⟨path, key, ⟨k, hk⟩, hobject, hno⟩ := h.exists_path (known_ofValue (hvs v hv))
  obtain ⟨w, hw, -⟩ := (has_ofValue_iff (hvs v hv) _ _).1 hk
  obtain ⟨y, hy, hyw⟩ := Json.Value.at_append_iff.1 hw
  obtain ⟨x, hx, hxkind⟩ := (has_ofValue_iff (hvs u hu) _ _).1 hobject
  obtain ⟨fs, rfl⟩ := Json.Value.kind_eq_object_iff.1 hxkind
  cases hyw with
  | @key gs _ z _ _ hget _ =>
    have hkey := (hkeys u hu v hv path _ _ hx hy fs gs rfl rfl key).2
      (Entries.exists_get?_eq_some_iff.1 ⟨z, hget⟩)
    obtain ⟨z', hz'⟩ := Entries.exists_get?_eq_some_iff.2 hkey
    refine hno z'.kind ((has_ofValue_iff (hvs u hu) _ _).2 ⟨z', ?_, rfl⟩)
    exact Json.Value.at_append_iff.2 ⟨_, hx, .key hz' (.here z')⟩

end Shape

end JsonShape
