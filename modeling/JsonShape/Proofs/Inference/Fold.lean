import JsonShape.Proofs.Json.Value
import JsonShape.Proofs.Shape.Join
import JsonShape.Inference.Fold
/-!
# JsonShape.Proofs.Inference.Fold

Shapes of values and of lists of values.

* `Shape.ofValue_of_scalar`, `Shape.ofValue_array`, `Shape.ofValue_object`: the shape of a value, by
  its kind.
* `Shape.wellFormed_ofValue`: the shape of a value is well-formed.
-/

namespace JsonShape.Shape

theorem ofItems_eq_map (vs : List Json.Value) : ofItems vs = vs.map ofValue := by
  induction vs with
  | nil => rfl
  | cons v vs ih => rw [ofItems, ih, List.map_cons]

theorem ofFields_eq_map (fs : List (Text × Json.Value)) :
    ofFields fs = fs.map fun f => (f.1, ofValue f.2) := by
  induction fs with
  | nil => rfl
  | cons f fs ih =>
    obtain ⟨k, v⟩ := f
    rw [ofFields, ih, List.map_cons]

theorem ofValue_of_scalar {v : Json.Value} {k : Scalar} (h : v.kind = .scalar k) :
    ofValue v = .scalar k := by
  cases v <;> cases h <;> rfl

theorem ofValue_array (vs : List Json.Value) : ofValue (.array vs) = .array (infer vs) := by
  rw [ofValue, ofItems_eq_map, infer]

theorem ofValue_object (fs : List (Text × Json.Value)) : ofValue (.object fs) = .object (ofFields fs) :=
  rfl

theorem get?_ofFields (fs : List (Text × Json.Value)) (key : Text) :
    Entries.get? key (ofFields fs) = (Entries.get? key fs).map ofValue := by
  rw [ofFields_eq_map, Entries.get?_mapValues fun _ => ofValue]

theorem keys_ofFields (fs : List (Text × Json.Value)) :
    Entries.keys (ofFields fs) = Entries.keys fs := by
  rw [ofFields_eq_map, Entries.keys_mapValues fun _ => ofValue]

theorem wellFormed_ofValue {v : Json.Value} (hv : v.WellFormed) : (ofValue v).WellFormed := by
  induction v with
  | array vs ih =>
    have hvs := Json.Value.wellFormed_array_iff.1 hv
    rw [ofValue_array]
    refine .array (wellFormed_joinAll fun s hs => ?_)
    obtain ⟨v, hmem, rfl⟩ := List.mem_map.1 hs
    exact ih v hmem (hvs v hmem)
  | object fs ih =>
    obtain ⟨hd, hfs⟩ := Json.Value.wellFormed_object_iff.1 hv
    rw [ofValue_object]
    refine .object ?_ fun f hf => ?_
    · rw [Entries.Distinct, keys_ofFields]
      exact hd
    · rw [ofFields_eq_map] at hf
      obtain ⟨g, hg, rfl⟩ := List.mem_map.1 hf
      exact ih g hg (hfs g hg)
  | _ => exact .scalar _

end JsonShape.Shape
