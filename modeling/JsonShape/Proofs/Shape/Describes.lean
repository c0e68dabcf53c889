import JsonShape.Proofs.Inference.Bracketing
import JsonShape.Proofs.Shape.Node
/-!
# JsonShape.Proofs.Shape.Describes

Which values a shape describes, and that joining loses none of them.

* `Shape.Describes`: `unknown` describes nothing; an object has no keys but those of the fields, and
  lacks only fields that may be absent.
* `Shape.Below`: describing more; `Shape.below_join`: both sides of a join are below it.
* `Shape.describes_ofValue`: the shape of a value describes it.
* `Shape.describes_shape_ofValue`: so every bracketing of joins describes each value that went into
  it.
-/

namespace JsonShape.Shape

inductive Describes : Shape → Json.Value → Prop where
  | scalar {k : Scalar} {v : Json.Value} : v.kind = .scalar k → Describes (.scalar k) v
  | optional {s : Shape} {v : Json.Value} : Describes s v → Describes (.optional s) v
  | array {s : Shape} {vs : List Json.Value} :
      (∀ v ∈ vs, Describes s v) → Describes (.array s) (.array vs)
  | object {fs : List (Text × Shape)} {es : List (Text × Json.Value)} :
      (∀ e ∈ es, e.1 ∈ Entries.keys fs) →
      (∀ e ∈ es, ∀ s, Entries.get? e.1 fs = some s → Describes s e.2) →
      (∀ key s, Entries.get? key fs = some s → key ∉ Entries.keys es → s.mayBeAbsent = true) →
      Describes (.object fs) (.object es)
  | union {ms : List Shape} {m : Shape} {v : Json.Value} :
      m ∈ ms → Describes m v → Describes (.union ms) v

theorem not_describes_unknown (v : Json.Value) : ¬Describes .unknown v := by
  intro h
  cases h

theorem describes_optional_iff (v : Json.Value) (s : Shape) :
    (optional s).Describes v ↔ s.Describes v :=
  ⟨fun h => by cases h; assumption, .optional⟩

theorem describes_union_iff (v : Json.Value) (ms : List Shape) :
    (union ms).Describes v ↔ ∃ m ∈ ms, m.Describes v := by
  constructor
  · intro h
    cases h with
    | union hm h => exact ⟨_, hm, h⟩
  · rintro ⟨m, hm, h⟩
    exact .union hm h

/-! ## Describing more -/

/-- `t` describes all that `s` describes, and may be absent if `s` may. -/
def Below (s t : Shape) : Prop :=
  (∀ v, s.Describes v → t.Describes v) ∧ (s.mayBeAbsent = true → t.mayBeAbsent = true)

theorem below_refl (s : Shape) : s.Below s := ⟨fun _ h => h, fun h => h⟩

theorem below_trans {s t u : Shape} (h₁ : s.Below t) (h₂ : t.Below u) : s.Below u :=
  ⟨fun v h => h₂.1 v (h₁.1 v h), fun h => h₂.2 (h₁.2 h)⟩

theorem unknown_below (t : Shape) : unknown.Below t := by
  refine ⟨fun v h => absurd h (not_describes_unknown v), ?_⟩
  intro h
  cases h

theorem below_optionalOf (s : Shape) : s.Below s.optionalOf := by
  refine ⟨fun v h => ?_, fun _ => mayBeAbsent_optionalOf s⟩
  exact (optionalOf_iff (P := fun s => s.Describes v) (describes_optional_iff v) s).2 h

theorem optional_below_optional {s t : Shape} (h : s.Below t) : (optional s).Below (optional t) := by
  refine ⟨fun v hv => ?_, fun h => h⟩
  rw [describes_optional_iff] at hv ⊢
  exact h.1 v hv

theorem array_below_array {s t : Shape} (h : s.Below t) : (array s).Below (array t) := by
  refine ⟨fun v hv => ?_, fun h => h⟩
  cases hv with
  | array hvs => exact .array fun v hv => h.1 v (hvs v hv)

/-- An object shape stays below one that keeps every field or puts one above it there, and adds only
fields that may be absent. -/
theorem object_below_object {fs gs : List (Text × Shape)}
    (hkeep : ∀ key s, Entries.get? key fs = some s →
      ∃ t, Entries.get? key gs = some t ∧ s.Below t)
    (hnew : ∀ key t, Entries.get? key gs = some t → Entries.get? key fs = none →
      t.mayBeAbsent = true) : (object fs).Below (object gs) := by
  refine ⟨fun v hv => ?_, fun h => h⟩
  cases hv with
  | @object _ es hkeys hfields habsent =>
    have hfound : ∀ e ∈ es, ∃ s, Entries.get? e.1 fs = some s := fun e he =>
      Entries.exists_get?_eq_some_iff.2 (hkeys e he)
    refine .object ?_ ?_ ?_
    · intro e he
      obtain ⟨s, hs⟩ := hfound e he
      obtain ⟨t, ht, -⟩ := hkeep _ s hs
      exact Entries.exists_get?_eq_some_iff.1 ⟨t, ht⟩
    · intro e he t ht
      obtain ⟨s, hs⟩ := hfound e he
      obtain ⟨t', ht', hst⟩ := hkeep _ s hs
      rw [ht] at ht'
      cases ht'
      exact hst.1 _ (hfields e he s hs)
    · intro key t ht hkey
      cases hs : Entries.get? key fs with
      | none => exact hnew key t ht hs
      | some s =>
        obtain ⟨t', ht', hst⟩ := hkeep key s hs
        rw [ht] at ht'
        cases ht'
        exact hst.2 (habsent key s hs hkey)

theorem below_of_same {s t : Shape} (hs : s.WellFormed) (h : s.same t = true) : t.Below s := by
  induction s generalizing t with
  | unknown => cases same_inv h; exact below_refl _
  | scalar k => cases same_inv h; exact below_refl _
  | optional a ih =>
    obtain ⟨b, rfl, hab⟩ := same_inv h
    exact optional_below_optional (ih (wellFormed_optional_iff.1 hs) hab)
  | array a ih =>
    obtain ⟨b, rfl, hab⟩ := same_inv h
    exact array_below_array (ih (wellFormed_array_iff.1 hs) hab)
  | object fs ih =>
    obtain ⟨gs, rfl, -⟩ := same_inv h
    refine object_below_object ?_ ?_
    · intro key t hkey
      obtain ⟨s, hget, hst⟩ := exists_get?_of_same_right hs h hkey
      have hmem := Entries.mem_of_get?_eq_some hget
      exact ⟨s, hget, ih _ hmem ((wellFormed_object_iff.1 hs).2 _ hmem) hst⟩
    · intro key s hget hnone
      obtain ⟨t, hkey, -⟩ := exists_get?_of_same h hget
      rw [hnone] at hkey
      cases hkey
  | union ms ih =>
    obtain ⟨ns, rfl, -⟩ := same_inv h
    refine ⟨fun v hv => ?_, mayBeAbsent_of_same hs h⟩
    obtain ⟨n, hn, hnv⟩ := (describes_union_iff v ns).1 hv
    obtain ⟨m, hm, hmn⟩ := exists_member_of_same hs h hn
    exact .union hm ((ih m hm ((wellFormed_union_iff.1 hs).2.2 m hm) hmn).1 v hnv)

theorem respected_describes (v : Json.Value) : Respected fun s => s.Describes v :=
  fun _ _ hs h => (below_of_same hs h).1 v

theorem describes_unionOf_iff {ss : List Shape} (hss : ∀ s ∈ ss, s.WellFormed) (v : Json.Value) :
    (unionOf ss).Describes v ↔ ∃ s ∈ ss, s.Describes v :=
  unionOf_iff (respected_describes v) (describes_union_iff v) hss

theorem below_unionOf {ss : List Shape} (hss : ∀ s ∈ ss, s.WellFormed) {s : Shape} (hs : s ∈ ss) :
    s.Below (unionOf ss) := by
  refine ⟨fun v h => (describes_unionOf_iff hss v).2 ⟨s, hs, h⟩, fun h => ?_⟩
  rw [mayBeAbsent_unionOf hss, List.any_eq_true]
  exact ⟨s, hs, h⟩

/-! ## The join is an upper bound -/

theorem below_join {s t : Shape} (hs : s.WellFormed) (ht : t.WellFormed) :
    s.Below (s.join t) ∧ t.Below (s.join t) := by
  induction s, t using join_ind with
  | unknown_left t => exact ⟨unknown_below t, below_refl t⟩
  | unknown_right s =>
    rw [join_unknown]
    exact ⟨below_refl s, unknown_below s⟩
  | scalar k =>
    rw [scalar_join_self]
    exact ⟨below_refl _, below_refl _⟩
  | optional s t ih =>
    obtain ⟨hl, hr⟩ := ih (wellFormed_optional_iff.1 hs) (wellFormed_optional_iff.1 ht)
    exact ⟨optional_below_optional hl, optional_below_optional hr⟩
  | array s t ih =>
    obtain ⟨hl, hr⟩ := ih (wellFormed_array_iff.1 hs) (wellFormed_array_iff.1 ht)
    exact ⟨array_below_array hl, array_below_array hr⟩
  | object fs gs ih =>
    obtain ⟨-, hfs⟩ := wellFormed_object_iff.1 hs
    obtain ⟨-, hgs⟩ := wellFormed_object_iff.1 ht
    have hboth : ∀ key s t, Entries.get? key fs = some s → Entries.get? key gs = some t →
        s.Below (s.join t) ∧ t.Below (s.join t) := by
      intro key s t hf hg
      have hmem := Entries.mem_of_get?_eq_some hf
      exact ih _ hmem t hg (hfs _ hmem) (hgs _ (Entries.mem_of_get?_eq_some hg))
    rw [object_join]
    constructor
    · refine object_below_object ?_ ?_
      · intro key s hf
        rw [get?_joinFields, hf]
        cases hg : Entries.get? key gs with
        | none => exact ⟨_, rfl, below_optionalOf s⟩
        | some t => exact ⟨_, rfl, (hboth key s t hf hg).1⟩
      · intro key u hu hf
        rw [get?_joinFields, hf] at hu
        cases hg : Entries.get? key gs with
        | none => rw [hg] at hu; cases hu
        | some t => rw [hg] at hu; cases hu; exact mayBeAbsent_optionalOf t
    · refine object_below_object ?_ ?_
      · intro key t hg
        rw [get?_joinFields, hg]
        cases hf : Entries.get? key fs with
        | none => exact ⟨_, rfl, below_optionalOf t⟩
        | some s => exact ⟨_, rfl, (hboth key s t hf hg).2⟩
      · intro key u hu hg
        rw [get?_joinFields, hg] at hu
        cases hf : Entries.get? key fs with
        | none => rw [hf] at hu; cases hu
        | some s => rw [hf] at hu; cases hu; exact mayBeAbsent_optionalOf s
  | union s t h =>
    have hst := forall_mem_pair hs ht
    rw [h]
    exact ⟨below_unionOf hst (by simp), below_unionOf hst (by simp)⟩

/-- What goes into a bracketing stays below what comes out of its joins. -/
theorem below_shape_of_mem {α : Type} {f : α → Shape} {b : Bracketing α}
    (hwf : ∀ a ∈ b.leaves, (f a).WellFormed) {a : α} (ha : a ∈ b.leaves) :
    (f a).Below (b.shape f) := by
  induction b with
  | none => cases ha
  | leaf c =>
    simp only [Bracketing.leaves, List.mem_singleton] at ha
    rw [ha]
    exact below_refl _
  | node l r ihl ihr =>
    simp only [Bracketing.leaves, List.mem_append] at hwf ha
    have hl : ∀ c ∈ l.leaves, (f c).WellFormed := fun c hc => hwf c (.inl hc)
    have hr : ∀ c ∈ r.leaves, (f c).WellFormed := fun c hc => hwf c (.inr hc)
    obtain ⟨hleft, hright⟩ :=
      below_join (Bracketing.wellFormed_shape hl) (Bracketing.wellFormed_shape hr)
    rcases ha with ha | ha
    · exact below_trans (ihl hl ha) hleft
    · exact below_trans (ihr hr ha) hright

theorem describes_ofValue {v : Json.Value} (hv : v.WellFormed) : (ofValue v).Describes v := by
  induction v with
  | array vs ih =>
    have hvs := Json.Value.wellFormed_array_iff.1 hv
    rw [ofValue_array, ← Bracketing.shape_left_ofValue]
    refine .array fun v hmem => (below_shape_of_mem ?_ ?_).1 v (ih v hmem (hvs v hmem))
    · rw [Bracketing.leaves_left]
      exact fun w hw => wellFormed_ofValue (hvs w hw)
    · rw [Bracketing.leaves_left]
      exact hmem
  | object es ih =>
    obtain ⟨hd, hes⟩ := Json.Value.wellFormed_object_iff.1 hv
    rw [ofValue_object]
    refine .object ?_ ?_ ?_
    · intro e he
      rw [keys_ofFields]
      exact Entries.mem_keys_of_mem he
    · intro e he s hs
      rw [get?_ofFields, Entries.get?_of_mem hd he] at hs
      cases hs
      exact ih e he (hes e he)
    · intro key s hs hkey
      have := Entries.exists_get?_eq_some_iff.1 ⟨s, hs⟩
      rw [keys_ofFields] at this
      exact absurd this hkey
  | _ => exact .scalar rfl

theorem describes_shape_ofValue {b : Bracketing Json.Value} (hb : ∀ v ∈ b.leaves, v.WellFormed)
    {v : Json.Value} (hv : v ∈ b.leaves) : (b.shape ofValue).Describes v :=
  (below_shape_of_mem (fun w hw => wellFormed_ofValue (hb w hw)) hv).1 v
    (describes_ofValue (hb v hv))

/-- An object is described by an object shape behind the optional marks and unions. -/
theorem exists_object_leaf_of_describes {s : Shape} {es : List (Text × Json.Value)}
    (h : s.Describes (.object es)) :
    ∃ fs, .object fs ∈ s.leaves ∧ (object fs).Describes (.object es) := by
  induction s with
  | object fs => exact ⟨fs, by simp [leaves], h⟩
  | optional s ih =>
    rw [describes_optional_iff] at h
    exact ih h
  | union ms ih =>
    obtain ⟨m, hm, h⟩ := (describes_union_iff _ ms).1 h
    obtain ⟨fs, hfs, h⟩ := ih m hm h
    rw [leaves_union]
    exact ⟨fs, List.mem_flatMap.2 ⟨m, hm, hfs⟩, h⟩
  | scalar k =>
    cases h with
    | scalar h => cases h
  | _ => cases h

/-- A join describes what either side describes, shapes read from files included, and the shape of a
value describes it. So every value is described however and in whatever order the shapes of values
are joined, and no object has a key that the fields lack. -/
theorem join_upper_bound :
    (∀ (s t : Shape) (v : Json.Value), s.WellFormed → t.WellFormed → s.Describes v ∨ t.Describes v →
      (s.join t).Describes v) ∧
    (∀ (node : Json.Value) (s : Shape), ofNode? node = .ok s → s.WellFormed) ∧
    (∀ v : Json.Value, v.WellFormed → (ofValue v).Describes v) ∧
    ∀ b : Bracketing Json.Value, (∀ v ∈ b.leaves, v.WellFormed) → ∀ v ∈ b.leaves,
      (b.shape ofValue).Describes v ∧ ∀ es, v = .object es →
        ∃ fs, .object fs ∈ (b.shape ofValue).leaves ∧ (object fs).Describes v ∧
          ∀ e ∈ es, e.1 ∈ Entries.keys fs := by
  refine ⟨?_, ?_, fun v hv => describes_ofValue hv, ?_⟩
  · rintro s t v hs ht (h | h)
    · exact (below_join hs ht).1.1 v h
    · exact (below_join hs ht).2.1 v h
  · exact fun node s h => wellFormed_of_ofNode? node h
  · intro b hb v hv
    have h := describes_shape_ofValue hb hv
    refine ⟨h, ?_⟩
    rintro es rfl
    obtain ⟨fs, hfs, hd⟩ := exists_object_leaf_of_describes h
    refine ⟨fs, hfs, hd, ?_⟩
    cases hd with
    | object hkeys => exact hkeys

/-- A union without members, as a file may hold one, and a field that one of two objects lacks. -/
theorem join_upper_bound_missing_key :
    let s : Shape := .union []
    let t : Shape := .optional (.optional (.scalar .null))
    let v : Json.Value := .object [("a", .int 1)]
    let b : Bracketing Json.Value := .node (.leaf (.object [])) (.leaf v)
    (s.WellFormed ∧ t.WellFormed ∧ t.Describes .null ∧ (s.join t).Describes .null) ∧
      ((∀ w ∈ b.leaves, w.WellFormed) ∧ (b.shape ofValue).Describes (.object []) ∧
        (b.shape ofValue).Describes v) := by
  intro s t v b
  have hs : s.WellFormed := .union (by simp) .nil (by simp)
  have ht : t.WellFormed := .optional (.optional (.scalar _))
  have hnull : t.Describes .null := .optional (.optional (.scalar rfl))
  have hb : ∀ w ∈ b.leaves, w.WellFormed := by
    have hempty : (Json.Value.object []).WellFormed := .object .nil (by simp)
    have hv : v.WellFormed :=
      .object (by simp [Entries.Distinct, Entries.keys]) (by simpa using .scalar rfl)
    simp [b, Bracketing.leaves, hempty, hv]
  obtain ⟨hjoin, -, -, hleaves⟩ := join_upper_bound
  exact ⟨⟨hs, ht, hnull, hjoin s t .null hs ht (.inr hnull)⟩, hb,
    (hleaves b hb _ (by simp [b, Bracketing.leaves])).1,
    (hleaves b hb v (by simp [b, Bracketing.leaves])).1⟩

end JsonShape.Shape
