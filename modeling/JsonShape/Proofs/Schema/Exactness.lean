import JsonShape.Proofs.Schema.Validation
import JsonShape.Proofs.Shape.Absence
import JsonShape.Proofs.Shape.Node
/-!
# JsonShape.Proofs.Schema.Exactness

The schema of a shape accepts exactly the values that the shape admits.

* `Shape.Admits`: the open reading of shapes; `unknown` admits everything, and an object may have other
  keys than those of the fields.
* `Schema.validates_ofShape_iff`: validity under the schema of a shape.
-/

namespace JsonShape

namespace Shape

inductive Admits : Shape → Json.Value → Prop where
  | unknown (v : Json.Value) : Admits .unknown v
  | scalar {k : Scalar} {v : Json.Value} : v.kind = .scalar k → Admits (.scalar k) v
  | optional {s : Shape} {v : Json.Value} : Admits s v → Admits (.optional s) v
  | array {s : Shape} {vs : List Json.Value} :
      (∀ v ∈ vs, Admits s v) → Admits (.array s) (.array vs)
  | object {fs : List (Text × Shape)} {es : List (Text × Json.Value)} :
      (∀ f ∈ fs, f.2.mayBeAbsent = false → f.1 ∈ Entries.keys es) →
      (∀ f ∈ fs, ∀ v, Entries.get? f.1 es = some v → Admits f.2 v) →
      Admits (.object fs) (.object es)
  | union {ms : List Shape} {m : Shape} {v : Json.Value} : m ∈ ms → Admits m v → Admits (.union ms) v

theorem scalar_admits_iff {k : Scalar} {v : Json.Value} :
    (scalar k).Admits v ↔ v.kind = .scalar k :=
  ⟨fun h => by cases h; assumption, .scalar⟩

theorem admits_optional_iff (v : Json.Value) (s : Shape) : (optional s).Admits v ↔ s.Admits v :=
  ⟨fun h => by cases h; assumption, .optional⟩

theorem array_admits_iff {s : Shape} {v : Json.Value} :
    (array s).Admits v ↔ ∃ vs, v = .array vs ∧ ∀ u ∈ vs, s.Admits u := by
  constructor
  · intro h
    cases h with
    | array h => exact ⟨_, rfl, h⟩
  · rintro ⟨vs, rfl, h⟩
    exact .array h

theorem object_admits_iff {fs : List (Text × Shape)} {v : Json.Value} :
    (object fs).Admits v ↔ ∃ es, v = .object es ∧
      (∀ f ∈ fs, f.2.mayBeAbsent = false → f.1 ∈ Entries.keys es) ∧
        ∀ f ∈ fs, ∀ u, Entries.get? f.1 es = some u → f.2.Admits u := by
  constructor
  · intro h
    cases h with
    | object hkeys hfields => exact ⟨_, rfl, hkeys, hfields⟩
  · rintro ⟨es, rfl, hkeys, hfields⟩
    exact .object hkeys hfields

theorem admits_union_iff (v : Json.Value) (ms : List Shape) :
    (union ms).Admits v ↔ ∃ m ∈ ms, m.Admits v := by
  constructor
  · intro h
    cases h with
    | union hm h => exact ⟨_, hm, h⟩
  · rintro ⟨m, hm, h⟩
    exact .union hm h

/-- Equal shapes admit the same values: fields are found by their keys, members in any order. -/
theorem admits_of_same {s t : Shape} (hs : s.WellFormed) (h : s.same t = true) {v : Json.Value}
    (hv : t.Admits v) : s.Admits v := by
  induction s generalizing t v with
  | unknown => exact .unknown v
  | scalar k => cases same_inv h; exact hv
  | optional a ih =>
    obtain ⟨b, rfl, hab⟩ := same_inv h
    rw [admits_optional_iff] at hv ⊢
    exact ih (wellFormed_optional_iff.1 hs) hab hv
  | array a ih =>
    obtain ⟨b, rfl, hab⟩ := same_inv h
    obtain ⟨vs, rfl, hvs⟩ := array_admits_iff.1 hv
    exact .array fun u hu => ih (wellFormed_array_iff.1 hs) hab (hvs u hu)
  | object fs ih =>
    obtain ⟨gs, rfl, -, hfg⟩ := same_inv h
    obtain ⟨es, rfl, hkeys, hfields⟩ := object_admits_iff.1 hv
    have hwf := (wellFormed_object_iff.1 hs).2
    refine .object (fun f hf hpresent => ?_) fun f hf u hu => ?_
    · obtain ⟨t, ht, hft⟩ := hfg f hf
      have hmem : (f.1, t) ∈ gs := Entries.mem_of_get?_eq_some ht
      refine hkeys (f.1, t) hmem (Bool.eq_false_iff.2 fun htrue => ?_)
      rw [mayBeAbsent_of_same (hwf f hf) hft htrue] at hpresent
      cases hpresent
    · obtain ⟨t, ht, hft⟩ := hfg f hf
      exact ih f hf (hwf f hf) hft (hfields _ (Entries.mem_of_get?_eq_some ht) u hu)
  | union ms ih =>
    obtain ⟨ns, rfl, -⟩ := same_inv h
    obtain ⟨n, hn, hnv⟩ := (admits_union_iff v ns).1 hv
    obtain ⟨m, hm, hmn⟩ := exists_member_of_same hs h hn
    exact .union hm (ih m hm ((wellFormed_union_iff.1 hs).2.2 m hm) hmn hnv)

theorem admits_strip_present_iff {s : Shape} (hs : s.WellFormed) (v : Json.Value) :
    s.strip.present.Admits v ↔ s.Admits v :=
  strip_present_iff (P := fun s => s.Admits v) (fun _ _ hs h hv => admits_of_same hs h hv)
    (admits_optional_iff v) (admits_union_iff v) hs

end Shape

namespace Schema

open Shape

theorem mem_requiredKeys {fs : List (Text × Shape)} {key : Text} :
    key ∈ requiredKeys fs ↔ ∃ f ∈ fs, f.2.mayBeAbsent = false ∧ f.1 = key := by
  simp [requiredKeys, strip_optional, and_assoc]

theorem validates_ofShape_object_iff {fs : List (Text × Shape)}
    (hfields : ∀ f ∈ fs, ∀ u, Validates (ofShape f.2.strip.present).toNode u ↔ f.2.Admits u)
    (v : Json.Value) : Validates (ofShape (.object fs)).toNode v ↔ (Shape.object fs).Admits v := by
  rw [ofShape_object, validates_object_iff, object_admits_iff]
  refine exists_congr fun es => and_congr_right fun _ => ?_
  rw [and_comm]
  refine and_congr ?_ ?_
  · constructor
    · exact fun h f hf hpresent => h f.1 (mem_requiredKeys.2 ⟨f, hf, hpresent, rfl⟩)
    · rintro h key hkey
      obtain ⟨f, hf, hpresent, rfl⟩ := mem_requiredKeys.1 hkey
      exact h f hf hpresent
  · rw [List.forall_mem_map]
    exact forall₂_congr fun f hf => forall_congr' fun u => imp_congr_right fun _ => hfields f hf u

/-- One branch for each member. -/
theorem validates_branches_iff {s : Shape} (hu : s.isUnion = true) {v : Json.Value}
    (hmembers : ∀ m ∈ s.alternatives, Validates (ofShape m).toNode v ↔ m.Admits v) :
    (∃ branch ∈ s.alternatives.map ofShape, Validates branch.toNode v) ↔ s.Admits v := by
  cases s with
  | union ms =>
    rw [admits_union_iff]
    constructor
    · rintro ⟨_, hbranch, hv⟩
      obtain ⟨m, hm, rfl⟩ := List.mem_map.1 hbranch
      exact ⟨m, hm, (hmembers m hm).1 hv⟩
    · rintro ⟨m, hm, hv⟩
      exact ⟨_, List.mem_map_of_mem hm, (hmembers m hm).2 hv⟩
  | _ => cases hu

theorem validates_ofShape_iff {s : Shape} (hs : s.WellFormed) (v : Json.Value) :
    Validates (ofShape s).toNode v ↔ s.Admits v := by
  -- Stripping gives shapes that are not parts of the shape, but smaller ones.
  induction hn : s.size using Nat.strongRecOn generalizing s v with
  | ind n ih =>
    subst hn
    cases s with
    | unknown =>
      rw [ofShape]
      exact iff_of_true (validates_any v) (.unknown v)
    | scalar k => rw [ofShape, validates_scalar_iff, scalar_admits_iff]
    | optional s =>
      rw [ofShape, admits_optional_iff]
      exact ih s.size (by simp [size]) (wellFormed_optional_iff.1 hs) v rfl
    | array s =>
      have hitems := ih s.size (by simp [size]) (wellFormed_array_iff.1 hs)
      rw [ofShape, validates_array_iff, array_admits_iff]
      simp only [hitems]
    | object fs =>
      obtain ⟨-, hfs⟩ := wellFormed_object_iff.1 hs
      refine validates_ofShape_object_iff (fun f hf u => ?_) v
      have hsize : f.2.strip.present.size < (Shape.object fs).size := by
        have := size_le_sizeFields hf
        have := size_strip_le f.2
        simp only [size]
        omega
      rw [ih _ hsize (wellFormed_strip (hfs f hf)) u rfl, admits_strip_present_iff (hfs f hf)]
    | union ms =>
      have hwf := wellFormed_strip hs
      rw [← admits_strip_present_iff hs]
      cases hu : (union ms).strip.present.isUnion with
      | true =>
        rw [ofShape_union_of_isUnion hu, validates_anyOf_iff]
        refine validates_branches_iff hu fun m hm => ?_
        have hsize : m.size < (union ms).size := by
          have := size_lt_of_mem_alternatives hu hm
          have := size_strip_le (union ms)
          omega
        exact ih _ hsize (wellFormed_of_mem_alternatives hwf hm) v rfl
      | false =>
        have hsize : (union ms).strip.present.size < (union ms).size := by
          rcases strip_eq_or_size_lt (union ms) with h | h
          · rw [h] at hu; cases hu
          · exact h
        rw [ofShape_union_of_not_isUnion hu]
        exact ih _ hsize hwf v rfl

/-- A value is valid under the schema of a shape exactly if the shape admits it, for every shape that
a file can hold. -/
theorem validates_iff_admits :
    (∀ (s : Shape) (v : Json.Value), s.WellFormed →
      (Validates (ofShape s).toNode v ↔ s.Admits v)) ∧
    ∀ (node : Json.Value) (s : Shape), ofNode? node = .ok s → s.WellFormed :=
  ⟨fun _ v hs => validates_ofShape_iff hs v, fun node _ h => wellFormed_of_ofNode? node h⟩

/-- A field whose union holds nested optional marks, beside an optional item and a union of none: a
number or nothing at all under the first key, nothing under the last one. -/
theorem validates_iff_admits_nested :
    let s : Shape := .object [("a", .union [.optional (.optional (.scalar .number)), .scalar .null]),
      ("b", .array (.optional .unknown)), ("c", .optional (.union []))]
    let v : Json.Value := .object [("b", .array [.null]), ("d", .int 1)]
    let w : Json.Value := .object [("a", .string "x"), ("b", .array [])]
    let x : Json.Value := .object [("b", .array []), ("c", .null)]
    s.WellFormed ∧ Validates (ofShape s).toNode v ∧ ¬Validates (ofShape s).toNode w ∧
      ¬Validates (ofShape s).toNode x := by
  intro s v w x
  have hs : s.WellFormed := by
    refine .object (by simp +decide [Entries.Distinct]) ?_
    simp [wellFormed_union_iff, wellFormed_array_iff, wellFormed_optional_iff, WellFormed.scalar,
      WellFormed.unknown, isUnion, same]
  obtain ⟨hiff, -⟩ := validates_iff_admits
  rw [hiff s v hs, hiff s w hs, hiff s x hs]
  refine ⟨hs, ?_, ?_, ?_⟩ <;>
    simp +decide [s, v, w, x, object_admits_iff, array_admits_iff, admits_union_iff,
      admits_optional_iff, scalar_admits_iff, Admits.unknown, mayBeAbsent, Entries.keys,
      Entries.get?, Json.Value.kind]

end Schema

end JsonShape
