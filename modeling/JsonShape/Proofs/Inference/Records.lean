import JsonShape.Proofs.Inference.Parts
import JsonShape.Schema
/-!
# JsonShape.Proofs.Inference.Records

The shapes of objects: which fields they have, in which order, and which of these are required.

* `keysSeen`, `sharedKeys`: the keys of some values in the order in which they are first seen, and
  those of them that every value has.
* `Records`: what is known of the fields of objects that have been joined.
* `Bracketing.exists_fields`: what joining two objects keeps holds whatever the order of joins.
* `Schema.required_exact`: a key is required exactly if every value has it.
-/

namespace JsonShape

/-! ## First-seen order -/

theorem eraseDups_filter {α : Type} [BEq α] [LawfulBEq α] (p : α → Bool) (as : List α) :
    (as.filter p).eraseDups = as.eraseDups.filter p := by
  -- On the length, because `eraseDups` goes on with a filtered tail.
  induction hn : as.length using Nat.strongRecOn generalizing as with
  | ind n ih =>
    cases as with
    | nil => rfl
    | cons a as =>
      have hlen : (as.filter fun b => !b == a).length < n := by
        have := List.length_filter_le (fun b => !b == a) as
        simp only [List.length_cons] at hn
        omega
      have ih := ih _ hlen (as.filter fun b => !b == a) rfl
      rw [List.eraseDups_cons]
      by_cases hp : p a = true
      · rw [List.filter_cons_of_pos hp, List.filter_cons_of_pos hp, List.eraseDups_cons, ← ih,
          List.filter_filter, List.filter_filter]
        simp only [Bool.and_comm]
      · rw [List.filter_cons_of_neg hp, List.filter_cons_of_neg hp, ← ih, List.filter_filter]
        congr 1
        refine List.filter_congr fun b _ => ?_
        by_cases hb : b = a
        · simp [hb, hp]
        · simp [hb]

theorem eraseDups_of_nodup {α : Type} [BEq α] [LawfulBEq α] {as : List α} (h : as.Nodup) :
    as.eraseDups = as := by
  induction as with
  | nil => rfl
  | cons a as ih =>
    obtain ⟨ha, has⟩ := List.nodup_cons.1 h
    have hfilter : (as.filter fun b => !b == a) = as := by
      refine List.filter_eq_self.2 fun b hb => ?_
      have : b ≠ a := fun h => ha (h ▸ hb)
      simp [this]
    rw [List.eraseDups_cons, hfilter, ih has]

/-- The keys of some values, each where it is first seen. -/
def keysSeen (vs : List Json.Value) : List Text := (vs.flatMap Json.Value.keys).eraseDups

/-- Those that every value has. -/
def sharedKeys (vs : List Json.Value) : List Text :=
  (keysSeen vs).filter fun key => vs.all fun v => v.keys.contains key

theorem mem_keysSeen {vs : List Json.Value} {key : Text} :
    key ∈ keysSeen vs ↔ ∃ v ∈ vs, key ∈ v.keys := by
  rw [keysSeen, List.mem_eraseDups, List.mem_flatMap]

theorem mem_sharedKeys {vs : List Json.Value} (hne : vs ≠ []) {key : Text} :
    key ∈ sharedKeys vs ↔ ∀ v ∈ vs, key ∈ v.keys := by
  obtain ⟨v, hv⟩ := List.exists_mem_of_ne_nil _ hne
  simp only [sharedKeys, List.mem_filter, List.all_eq_true, List.contains_iff_mem]
  exact ⟨fun h => h.2, fun h => ⟨mem_keysSeen.2 ⟨v, hv, h v hv⟩, h⟩⟩

theorem keysSeen_append (us vs : List Json.Value) :
    keysSeen (us ++ vs) =
      keysSeen us ++ (keysSeen vs).filter fun key => !(keysSeen us).contains key := by
  rw [keysSeen, List.flatMap_append, List.eraseDups_append, List.removeAll, eraseDups_filter]
  congr 1
  refine List.filter_congr fun key _ => ?_
  rw [Bool.not_inj_iff, Bool.eq_iff_iff, List.elem_eq_contains, List.contains_iff_mem,
    List.contains_iff_mem, keysSeen, List.mem_eraseDups]

/-! ## Fields of joined objects -/

/-- The fields have the keys of the values, and may be absent if some value lacks them. -/
structure Records (vs : List Json.Value) (fs : List (Text × Shape)) : Prop where
  nonempty : vs ≠ []
  wellFormed : (Shape.object fs).WellFormed
  keys : Entries.keys fs = keysSeen vs
  absent : ∀ key s, Entries.get? key fs = some s →
    (s.mayBeAbsent = true ↔ ∃ v ∈ vs, key ∉ v.keys)

namespace Shape

theorem mayBeAbsent_ofValue (v : Json.Value) : (ofValue v).mayBeAbsent = false := by
  cases v <;> rfl

end Shape

theorem records_ofFields {es : List (Text × Json.Value)} (hes : (Json.Value.object es).WellFormed) :
    Records [.object es] (Shape.ofFields es) := by
  refine ⟨by simp, Shape.wellFormed_ofValue hes, ?_, fun key s hs => ?_⟩
  · rw [Shape.keys_ofFields, keysSeen, List.flatMap_singleton]
    exact (eraseDups_of_nodup (Json.Value.wellFormed_object_iff.1 hes).1).symm
  · rw [Shape.get?_ofFields] at hs
    obtain ⟨v, hv, rfl⟩ := Option.map_eq_some_iff.1 hs
    have hkey := Entries.exists_get?_eq_some_iff.1 ⟨v, hv⟩
    simp [Shape.mayBeAbsent_ofValue, Json.Value.keys, hkey]

theorem Records.wellFormed_of_get? {vs : List Json.Value} {fs : List (Text × Shape)}
    (h : Records vs fs) {key : Text} {s : Shape} (hs : Entries.get? key fs = some s) :
    s.WellFormed :=
  (Shape.wellFormed_object_iff.1 h.wellFormed).2 _ (Entries.mem_of_get?_eq_some hs)

/-- A key that a side's fields lack is not a key of all of its values. -/
theorem Records.exists_not_mem_keys {vs : List Json.Value} {fs : List (Text × Shape)} (h : Records vs fs)
    {key : Text} (hkey : Entries.get? key fs = none) : ∃ v ∈ vs, key ∉ v.keys := by
  rw [Entries.get?_eq_none_iff, h.keys, mem_keysSeen] at hkey
  obtain ⟨v, hv⟩ := List.exists_mem_of_ne_nil _ h.nonempty
  exact ⟨v, hv, fun hmem => hkey ⟨v, hv, hmem⟩⟩

theorem records_joinFields {us vs : List Json.Value} {fs gs : List (Text × Shape)}
    (hu : Records us fs) (hv : Records vs gs) : Records (us ++ vs) (Shape.joinFields fs gs) := by
  refine ⟨List.append_ne_nil_of_left_ne_nil hu.nonempty _,
    Shape.wellFormed_join hu.wellFormed hv.wellFormed, ?_, fun key s hs => ?_⟩
  · rw [Shape.keys_joinFields, keysSeen_append, ← hu.keys, ← hv.keys]
    congr 1
    refine List.filter_congr fun key _ => ?_
    rw [Bool.not_inj_iff, Bool.eq_iff_iff, Entries.contains_eq_true_iff, List.contains_iff_mem]
  · simp only [List.mem_append, or_and_right, exists_or]
    rcases Shape.get?_joinFields_cases hs with
      ⟨x, y, hf, hg, rfl⟩ | ⟨x, -, hg, rfl⟩ | ⟨y, hf, -, rfl⟩
    · rw [Shape.mayBeAbsent_join (hu.wellFormed_of_get? hf) (hv.wellFormed_of_get? hg),
        Bool.or_eq_true, hu.absent key x hf, hv.absent key y hg]
    · exact ⟨fun _ => .inr (hv.exists_not_mem_keys hg), fun _ => Shape.mayBeAbsent_optionalOf x⟩
    · exact ⟨fun _ => .inl (hu.exists_not_mem_keys hf), fun _ => Shape.mayBeAbsent_optionalOf y⟩

/-- What holds of the fields of each object, and of joined fields if it holds of both sides, holds of
the fields of all objects joined, in whatever order. -/
theorem Bracketing.exists_fields {P : List Json.Value → List (Text × Shape) → Prop}
    {b : Bracketing Json.Value}
    (hleaf : ∀ es, .object es ∈ b.leaves → P [.object es] (Shape.ofFields es))
    (hnode : ∀ us vs fs gs, P us fs → P vs gs → P (us ++ vs) (Shape.joinFields fs gs))
    (hkind : ∀ v ∈ b.leaves, v.kind = .object) (hne : b.leaves ≠ []) :
    ∃ fs, b.shape Shape.ofValue = .object fs ∧ P b.leaves fs := by
  induction b with
  | none => exact absurd rfl hne
  | leaf v =>
    obtain ⟨es, rfl⟩ := Json.Value.kind_eq_object_iff.1 (hkind v (by simp [leaves]))
    exact ⟨_, Shape.ofValue_object es, hleaf es (by simp [leaves])⟩
  | node l r ihl ihr =>
    simp only [leaves, List.mem_append] at hleaf hkind
    have ihl := ihl (fun es h => hleaf es (.inl h)) fun v hv => hkind v (.inl hv)
    have ihr := ihr (fun es h => hleaf es (.inr h)) fun v hv => hkind v (.inr hv)
    rw [shape]
    by_cases hl : l.leaves = []
    · rw [shape_of_leaves_nil hl, Shape.unknown_join]
      simp only [leaves, hl, List.nil_append] at hne ⊢
      exact ihr hne
    · by_cases hr : r.leaves = []
      · rw [shape_of_leaves_nil hr, Shape.join_unknown]
        simp only [leaves, hr, List.append_nil]
        exact ihl hl
      · obtain ⟨fs, hfs, hlfs⟩ := ihl hl
        obtain ⟨gs, hgs, hrgs⟩ := ihr hr
        rw [hfs, hgs, Shape.object_join]
        exact ⟨_, rfl, hnode _ _ fs gs hlfs hrgs⟩

/-! ## Required keys -/

namespace Schema

theorem requiredKeys_of_records {vs : List Json.Value} {fs : List (Text × Shape)}
    (h : Records vs fs) : requiredKeys fs = sharedKeys vs := by
  obtain ⟨hd, -⟩ := Shape.wellFormed_object_iff.1 h.wellFormed
  have hall : ∀ f ∈ fs, (!f.2.strip.optional) = vs.all fun v => v.keys.contains f.1 := by
    intro f hf
    have habsent := h.absent f.1 f.2 (Entries.get?_of_mem hd hf)
    rw [Shape.strip_optional, Bool.eq_iff_iff, Bool.not_eq_true', ← Bool.not_eq_true, habsent]
    simp
  rw [requiredKeys, List.filter_congr hall, sharedKeys, ← h.keys]
  exact Entries.keys_filterKeys (fun key => vs.all fun v => v.keys.contains key) fs

theorem get?_required (properties : List (Text × Schema)) (required : List Text) :
    Entries.get? "required" (fieldsOf (object properties required).toNode) =
      if required = [] then none else some (.array (required.map .string)) := by
  have htype : ("type" : Text) ≠ "required" := by decide
  have hproperties : ("properties" : Text) ≠ "required" := by decide
  cases required <;> simp [toNode, fieldsOf, Entries.get?, htype, hproperties]

theorem exists_schema_of_records {b : Bracketing Json.Value} (hwf : ∀ v ∈ b.leaves, v.WellFormed)
    (hkind : ∀ v ∈ b.leaves, v.kind = .object) (hne : b.leaves ≠ []) :
    ∃ fs properties, b.shape Shape.ofValue = .object fs ∧
      Entries.keys fs = keysSeen b.leaves ∧ (Entries.keys fs).Nodup ∧
      ofShape (b.shape Shape.ofValue) = object properties (sharedKeys b.leaves) ∧
      Entries.keys properties = keysSeen b.leaves := by
  obtain ⟨fs, hfs, hrec⟩ := Bracketing.exists_fields (P := Records)
    (fun es hes => records_ofFields (hwf _ hes)) (fun _ _ _ _ => records_joinFields) hkind hne
  obtain ⟨hd, -⟩ := Shape.wellFormed_object_iff.1 hrec.wellFormed
  rw [hfs]
  refine ⟨fs, fs.map fun f => (f.1, ofShape f.2.strip.present), rfl, hrec.keys, hd, ?_, ?_⟩
  · rw [ofShape_object, requiredKeys_of_records hrec]
  · rw [← hrec.keys]
    exact Entries.keys_mapValues (fun _ s => ofShape s.strip.present) fs

/-- Objects have an object shape, with their keys in first-seen order; its schema requires the keys
that every object has, in that order, and leaves the list out if there are none. -/
theorem required_exact (vs : List Json.Value) (hne : vs ≠ []) (hvs : ∀ v ∈ vs, v.WellFormed)
    (hkind : ∀ v ∈ vs, v.kind = .object) (workers : Option Int) (size : Int) (hsize : 1 ≤ size)
    (hworkers : ∀ n ∈ workers, 0 < n) :
    (∀ key, key ∈ sharedKeys vs ↔ ∀ v ∈ vs, key ∈ v.keys) ∧
    ∃ t, (Shape.inferSharded vs workers size).result = .ok t ∧ ∀ s, s = Shape.infer vs ∨ s = t →
      ∃ fs properties, s = .object fs ∧ Entries.keys fs = keysSeen vs ∧ (Entries.keys fs).Nodup ∧
        ofShape s = object properties (sharedKeys vs) ∧ Entries.keys properties = keysSeen vs ∧
        Entries.get? "required" (fieldsOf (ofShape s).toNode) =
          if sharedKeys vs = [] then none else some (.array ((sharedKeys vs).map .string)) := by
  refine ⟨fun key => mem_sharedKeys hne,
    _, Shape.inferSharded_result_eq_ok vs hsize hworkers, fun s hs => ?_⟩
  obtain ⟨b, rfl, rfl⟩ := Bracketing.exists_of_fold hs
  obtain ⟨fs, properties, hfs, hkeys, hd, hschema, hproperties⟩ :=
    exists_schema_of_records hvs hkind hne
  exact ⟨fs, properties, hfs, hkeys, hd, hschema, hproperties, hschema ▸ get?_required _ _⟩

/-- Three keys, of which only the second is in every object; one value is null, which is not absent. -/
theorem required_exact_second_key :
    let vs : List Json.Value := [.object [("a", .int 1), ("b", .null)], .object [("b", .bool true)],
      .object [("c", .array []), ("b", .int 2)]]
    vs ≠ [] ∧ (∀ v ∈ vs, v.WellFormed) ∧ (∀ v ∈ vs, v.kind = .object) ∧
      ∃ t, (Shape.inferSharded vs (some 1) 2).result = .ok t ∧
        ∃ properties, ofShape t = object properties ["b"] ∧
          Entries.keys properties = (["a", "b", "c"] : List Text) ∧
          Entries.get? "required" (fieldsOf (ofShape t).toNode) = some (.array [.string "b"]) := by
  intro vs
  have hscalar : ∀ {v : Json.Value} {k : Scalar}, v.kind = .scalar k → v.WellFormed := .scalar
  have hvs : ∀ v ∈ vs, v.WellFormed := by
    simp +decide [vs, Json.Value.wellFormed_object_iff, Json.Value.wellFormed_array_iff,
      Entries.Distinct, hscalar (v := .int 1) rfl, hscalar (v := .int 2) rfl,
      hscalar (v := .null) rfl, hscalar (v := .bool true) rfl]
  have hkind : ∀ v ∈ vs, v.kind = .object := by simp [vs, Json.Value.kind]
  have hseen : keysSeen vs = (["a", "b", "c"] : List Text) := by decide
  have hshared : sharedKeys vs = (["b"] : List Text) := by decide
  have hall := required_exact vs (by simp [vs]) hvs hkind (some 1) 2 (by decide) (by simp)
  rw [hseen, hshared] at hall
  obtain ⟨-, t, ht, hshapes⟩ := hall
  obtain ⟨fs, properties, -, -, -, hschema, hproperties, hrequired⟩ := hshapes t (.inr rfl)
  exact ⟨by simp [vs], hvs, hkind, t, ht, properties, hschema, hproperties, hrequired⟩

end Schema

end JsonShape
