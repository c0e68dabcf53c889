import JsonShape.Proofs.Inference.Groups
/-!
# JsonShape.Proofs.Inference.Parts

What a bracketing does inside the arrays and objects that it merges.

* `Bracketing.items`, `Bracketing.field`: how the elements of arrays are bracketed, and what objects
  hold under a key.
* `Everywhere`: what holds of any two values in the same place; `KeyComplete` and `Uniform` are such
  conditions.
* `Bracketing.sameShape_iff_parts`: groups of one kind have equal shapes exactly if all their parts
  have.
-/

namespace JsonShape

/-! ## Values in the same place -/

/-- Any two values in the same place, among all the values, are related. -/
def Everywhere (Q : Json.Value → Json.Value → Prop) (vs : List Json.Value) : Prop :=
  ∀ u ∈ vs, ∀ v ∈ vs, ∀ (path : List Step) (x y : Json.Value), u.At path x → v.At path y → Q x y

def SameKeys (x y : Json.Value) : Prop :=
  ∀ fs gs, x = .object fs → y = .object gs → ∀ key, key ∈ Entries.keys fs ↔ key ∈ Entries.keys gs

/-- Objects in the same place have the same keys. -/
def KeyComplete : List Json.Value → Prop := Everywhere SameKeys

def SameSort (x y : Json.Value) : Prop :=
  (x.kind = .array ↔ y.kind = .array) ∧ (x.kind = .object ↔ y.kind = .object)

/-- Arrays only meet arrays in one place, and objects only objects; scalars may be of any kinds. -/
def Uniform : List Json.Value → Prop := Everywhere SameSort

theorem Everywhere.mono {Q : Json.Value → Json.Value → Prop} {vs ws : List Json.Value}
    (h : Everywhere Q vs) (hsub : ∀ w ∈ ws, w ∈ vs) : Everywhere Q ws :=
  fun u hu v hv => h u (hsub u hu) v (hsub v hv)

namespace Bracketing

/-! ## Parts -/

def items : Bracketing Json.Value → Bracketing Json.Value
  | leaf (.array vs) => left vs
  | node l r => node l.items r.items
  | _ => none

def field (key : Text) : Bracketing Json.Value → Bracketing Json.Value
  | leaf (.object fs) =>
    match Entries.get? key fs with
    | some v => leaf v
    | .none => none
  | node l r => node (l.field key) (r.field key)
  | _ => none

theorem mem_leaves_items {b : Bracketing Json.Value} {u : Json.Value} :
    u ∈ b.items.leaves ↔ ∃ vs, .array vs ∈ b.leaves ∧ u ∈ vs := by
  induction b with
  | none => simp [items, leaves]
  | leaf v => cases v <;> simp [items, leaves, leaves_left]
  | node l r ihl ihr => simp only [items, leaves, List.mem_append, ihl, ihr, or_and_right, exists_or]

theorem mem_leaves_field {b : Bracketing Json.Value} {key : Text} {u : Json.Value} :
    u ∈ (b.field key).leaves ↔ ∃ fs, .object fs ∈ b.leaves ∧ Entries.get? key fs = some u := by
  induction b with
  | none => simp [field, leaves]
  | leaf v =>
    cases v with
    | object fs => cases h : Entries.get? key fs <;> simp [field, leaves, h, eq_comm]
    | _ => simp [field, leaves]
  | node l r ihl ihr => simp only [field, leaves, List.mem_append, ihl, ihr, or_and_right, exists_or]

end Bracketing

theorem Everywhere.items {Q : Json.Value → Json.Value → Prop} {b : Bracketing Json.Value}
    (h : Everywhere Q b.leaves) : Everywhere Q b.items.leaves := by
  intro u hu v hv path x y hx hy
  obtain ⟨us, hus, hu⟩ := Bracketing.mem_leaves_items.1 hu
  obtain ⟨vs, hvs, hv⟩ := Bracketing.mem_leaves_items.1 hv
  exact h _ hus _ hvs (.item :: path) x y (.item hu hx) (.item hv hy)

theorem Everywhere.field {Q : Json.Value → Json.Value → Prop} {b : Bracketing Json.Value}
    (h : Everywhere Q b.leaves) (key : Text) : Everywhere Q (b.field key).leaves := by
  intro u hu v hv path x y hx hy
  obtain ⟨us, hus, hu⟩ := Bracketing.mem_leaves_field.1 hu
  obtain ⟨vs, hvs, hv⟩ := Bracketing.mem_leaves_field.1 hv
  exact h _ hus _ hvs (.key key :: path) x y (.key hu hx) (.key hv hy)

/-! ## Values without repeated or missing keys -/

structure Regular (vs : List Json.Value) : Prop where
  wellFormed : ∀ v ∈ vs, v.WellFormed
  keyComplete : KeyComplete vs

namespace Regular

theorem mono {vs ws : List Json.Value} (h : Regular vs) (hsub : ∀ w ∈ ws, w ∈ vs) : Regular ws :=
  ⟨fun w hw => h.wellFormed w (hsub w hw), h.keyComplete.mono hsub⟩

theorem items {b : Bracketing Json.Value} (h : Regular b.leaves) : Regular b.items.leaves := by
  refine ⟨fun u hu => ?_, h.keyComplete.items⟩
  obtain ⟨us, hus, hu⟩ := Bracketing.mem_leaves_items.1 hu
  exact Json.Value.wellFormed_array_iff.1 (h.wellFormed _ hus) u hu

theorem field {b : Bracketing Json.Value} (h : Regular b.leaves) (key : Text) :
    Regular (b.field key).leaves := by
  refine ⟨fun u hu => ?_, h.keyComplete.field key⟩
  obtain ⟨us, hus, hu⟩ := Bracketing.mem_leaves_field.1 hu
  exact (Json.Value.wellFormed_object_iff.1 (h.wellFormed _ hus)).2 _
    (Entries.mem_of_get?_eq_some hu)

end Regular

namespace Bracketing

/-! ## Shapes of one kind -/

theorem OfKind.items_leaves {κ : Kind} {g : Bracketing Json.Value} (hg : g.OfKind κ)
    (hne : κ ≠ .array) : g.items.leaves = [] := by
  refine List.eq_nil_iff_forall_not_mem.2 fun u hu => ?_
  obtain ⟨vs, hvs, -⟩ := mem_leaves_items.1 hu
  exact hne (hg.kind_of_mem hvs).symm

theorem OfKind.field_leaves {κ : Kind} {g : Bracketing Json.Value} (hg : g.OfKind κ)
    (hne : κ ≠ .object) (key : Text) : (g.field key).leaves = [] := by
  refine List.eq_nil_iff_forall_not_mem.2 fun u hu => ?_
  obtain ⟨fs, hfs, -⟩ := mem_leaves_field.1 hu
  exact hne (hg.kind_of_mem hfs).symm

theorem shape_of_leaves_nil {b : Bracketing Json.Value} (h : b.leaves = []) :
    b.shape Shape.ofValue = .unknown := by
  induction b with
  | none => rfl
  | leaf v => cases h
  | node l r ihl ihr =>
    obtain ⟨hl, hr⟩ := List.append_eq_nil_iff.1 h
    rw [shape, ihl hl, ihr hr]
    rfl

theorem shape_ne_unknown {b : Bracketing Json.Value} (hb : ∀ v ∈ b.leaves, v.WellFormed)
    (hne : b.leaves ≠ []) : b.shape Shape.ofValue ≠ .unknown := by
  refine (made_groups hb).ne_unknown ?_ fun g hg => exists_ofKind_of_mem_groups hg
  intro h
  rw [← leaves_groups, h] at hne
  exact hne rfl

theorem sameShape_of_leaves_nil {b c : Bracketing Json.Value} (hb : b.leaves = [])
    (hc : c.leaves = []) : SameShape b c := by
  rw [SameShape, shape_of_leaves_nil hb, shape_of_leaves_nil hc]
  rfl

theorem OfKind.shape_of_scalar {k : Scalar} {g : Bracketing Json.Value} (hg : g.OfKind (.scalar k)) :
    g.shape Shape.ofValue = .scalar k := by
  have h := hg.kind?_shape
  cases hs : g.shape Shape.ofValue with
  | scalar l => rw [hs] at h; cases h; rfl
  | _ => rw [hs] at h; cases h

theorem OfKind.shape_of_array {g : Bracketing Json.Value} (hg : g.OfKind .array) :
    g.shape Shape.ofValue = .array (g.items.shape Shape.ofValue) := by
  induction hg with
  | @leaf v hv =>
    obtain ⟨vs, rfl⟩ := Json.Value.kind_eq_array_iff.1 hv
    rw [items, shape_left_ofValue]
    exact Shape.ofValue_array vs
  | @node l r _ _ ihl ihr =>
    rw [shape, ihl, ihr]
    rfl

/-- What the shape of merged objects has under a key. -/
def fieldShape (g : Bracketing Json.Value) (key : Text) : Option Shape :=
  if (g.field key).leaves = [] then .none else some ((g.field key).shape Shape.ofValue)

/-- Keys that one object has are keys of all. -/
theorem OfKind.field_leaves_ne_nil {g h : Bracketing Json.Value} (hh : h.OfKind .object)
    (hkeys : KeyComplete (g.leaves ++ h.leaves)) {key : Text} (hne : (g.field key).leaves ≠ []) :
    (h.field key).leaves ≠ [] := by
  obtain ⟨u, hu⟩ := List.exists_mem_of_ne_nil _ hne
  obtain ⟨fs, hfs, hget⟩ := mem_leaves_field.1 hu
  obtain ⟨v, rest, hv, hkind⟩ := hh.exists_leaf
  obtain ⟨gs, rfl⟩ := Json.Value.kind_eq_object_iff.1 hkind
  have hgs : Json.Value.object gs ∈ h.leaves := by simp [hv]
  have hkey := hkeys _ (List.mem_append_left _ hfs) _ (List.mem_append_right _ hgs) [] _ _
    (.here _) (.here _) fs gs rfl rfl key
  obtain ⟨w, hw⟩ := Entries.exists_get?_eq_some_iff.2
    (hkey.1 (Entries.exists_get?_eq_some_iff.1 ⟨u, hget⟩))
  exact List.ne_nil_of_mem (mem_leaves_field.2 ⟨gs, hgs, hw⟩)

theorem OfKind.shape_of_object {g : Bracketing Json.Value} (hg : g.OfKind .object)
    (hkeys : KeyComplete g.leaves) :
    ∃ fs, g.shape Shape.ofValue = .object fs ∧ ∀ key, Entries.get? key fs = g.fieldShape key := by
  induction hg with
  | @leaf v hv =>
    obtain ⟨fs, rfl⟩ := Json.Value.kind_eq_object_iff.1 hv
    refine ⟨Shape.ofFields fs, Shape.ofValue_object fs, fun key => ?_⟩
    rw [Shape.get?_ofFields, fieldShape, field]
    cases Entries.get? key fs <;> simp [leaves, shape]
  | @node l r hl hr ihl ihr =>
    have hkeys : KeyComplete (l.leaves ++ r.leaves) := hkeys
    obtain ⟨fs, hfs, hf⟩ := ihl (hkeys.mono fun v hv => List.mem_append_left _ hv)
    obtain ⟨gs, hgs, hg⟩ := ihr (hkeys.mono fun v hv => List.mem_append_right _ hv)
    have hkeys' : KeyComplete (r.leaves ++ l.leaves) :=
      hkeys.mono fun v hv => List.mem_append.2 (List.mem_append.1 hv).symm
    refine ⟨Shape.joinFields fs gs, by rw [shape, hfs, hgs, Shape.object_join], fun key => ?_⟩
    rw [Shape.get?_joinFields, hf, hg, fieldShape, fieldShape, fieldShape]
    by_cases hlnil : (l.field key).leaves = []
    · have hrnil : (r.field key).leaves = [] := by
        by_cases hrnil : (r.field key).leaves = []
        · exact hrnil
        · exact absurd hlnil (hl.field_leaves_ne_nil hkeys' hrnil)
      simp [field, leaves, hlnil, hrnil, Shape.joinField]
    · have hrne := hr.field_leaves_ne_nil hkeys hlnil
      simp [field, leaves, shape, hlnil, hrne, Shape.joinField]

/-! ## Equality by parts -/

theorem sameShape_field_iff {g h : Bracketing Json.Value} {key : Text}
    (hg : ∀ v ∈ (g.field key).leaves, v.WellFormed)
    (hh : ∀ v ∈ (h.field key).leaves, v.WellFormed) :
    SameShape (g.field key) (h.field key) ↔
      (g.fieldShape key = .none ∧ h.fieldShape key = .none) ∨
        ∃ s t, g.fieldShape key = some s ∧ h.fieldShape key = some t ∧ s.same t = true := by
  unfold fieldShape
  by_cases hgnil : (g.field key).leaves = [] <;> by_cases hhnil : (h.field key).leaves = []
  · simp [hgnil, hhnil, sameShape_of_leaves_nil]
  · have hne := shape_ne_unknown hh hhnil
    have : ¬SameShape (g.field key) (h.field key) := by
      intro hsame
      rw [SameShape, shape_of_leaves_nil hgnil] at hsame
      exact hne (Shape.same_inv hsame)
    simp [hgnil, hhnil, this]
  · have hne := shape_ne_unknown hg hgnil
    have : ¬SameShape (g.field key) (h.field key) := by
      intro hsame
      rw [SameShape, shape_of_leaves_nil hhnil] at hsame
      cases hs : (g.field key).shape Shape.ofValue with
      | unknown => exact hne hs
      | _ => rw [hs] at hsame; simp [Shape.same] at hsame
    simp [hgnil, hhnil, this]
  · simp [hgnil, hhnil, SameShape]

theorem sameShape_iff_parts {κ : Kind} {g h : Bracketing Json.Value} (hg : g.OfKind κ)
    (hh : h.OfKind κ) (hgr : Regular g.leaves) (hhr : Regular h.leaves) :
    SameShape g h ↔
      SameShape g.items h.items ∧ ∀ key, SameShape (g.field key) (h.field key) := by
  cases κ with
  | scalar k =>
    have hitems : SameShape g.items h.items :=
      sameShape_of_leaves_nil (hg.items_leaves (by simp)) (hh.items_leaves (by simp))
    have hfields : ∀ key, SameShape (g.field key) (h.field key) := fun key =>
      sameShape_of_leaves_nil (hg.field_leaves (by simp) key) (hh.field_leaves (by simp) key)
    rw [SameShape, hg.shape_of_scalar, hh.shape_of_scalar]
    exact ⟨fun _ => ⟨hitems, hfields⟩, fun _ => by simp [Shape.same]⟩
  | array =>
    have hfields : ∀ key, SameShape (g.field key) (h.field key) := fun key =>
      sameShape_of_leaves_nil (hg.field_leaves (by simp) key) (hh.field_leaves (by simp) key)
    rw [SameShape, hg.shape_of_array, hh.shape_of_array]
    exact ⟨fun hsame => ⟨hsame, hfields⟩, fun hparts => hparts.1⟩
  | object =>
    have hitems : SameShape g.items h.items :=
      sameShape_of_leaves_nil (hg.items_leaves (by simp)) (hh.items_leaves (by simp))
    have hgwf := wellFormed_shape_ofValue hgr.wellFormed
    have hhwf := wellFormed_shape_ofValue hhr.wellFormed
    obtain ⟨fs, hfs, hf⟩ := hg.shape_of_object hgr.keyComplete
    obtain ⟨gs, hgs, hg'⟩ := hh.shape_of_object hhr.keyComplete
    rw [hfs] at hgwf
    rw [hgs] at hhwf
    rw [SameShape, hfs, hgs, Shape.same_object_iff_get? hgwf hhwf]
    have hfield : ∀ key, SameShape (g.field key) (h.field key) ↔ _ := fun key =>
      sameShape_field_iff (hgr.field key).wellFormed (hhr.field key).wellFormed
    simp only [hfield, hf, hg', hitems, true_and]

end Bracketing

end JsonShape
