import JsonShape.Proofs.Shape.Leaves
import JsonShape.Shape.Node
/-!
# JsonShape.Proofs.Shape.Node

Shapes that are read from nodes.

* `Shape.ofNode?_optional`, `Shape.ofNode?_array`, `Shape.ofNode?_union`, `Shape.ofNode?_object`: what
  is read from a node of each kind with parts.
* `Shape.wellFormed_of_ofNode?`: whatever a node denotes is well-formed.
* `Shape.ofNode?_toNode`: a well-formed shape is read from its node as it was, in the same order.
-/

namespace JsonShape.Shape

/-! ## Kinds with parts -/

theorem ofNode?_optional (v : Json.Value) :
    ofNode? (.object [("optional", v)]) = (ofNode? v).map optional := by
  rw [ofNode?.eq_def]
  dsimp only
  rw [if_pos rfl]
  cases ofNode? v <;> rfl

theorem ofNode?_array (v : Json.Value) :
    ofNode? (.object [("array", v)]) = (ofNode? v).map array := by
  rw [ofNode?.eq_def]
  dsimp only
  rw [if_neg (by decide), if_pos rfl]
  cases ofNode? v <;> rfl

theorem ofNode?_union (vs : List Json.Value) :
    ofNode? (.object [("union", .array vs)]) = (ofMemberNodes? vs).map unionOf := by
  rw [ofNode?, if_neg (by decide), if_neg (by decide), if_pos rfl]
  cases ofMemberNodes? vs <;> rfl

theorem ofNode?_object (fs : List (Text × Json.Value)) :
    ofNode? (.object [("object", .object fs)]) =
      (ofFieldNodes? fs).map fun gs => object (Entries.ofPairs gs) := by
  rw [ofNode?, if_neg (by decide), if_neg (by decide), if_neg (by decide), if_pos rfl]
  cases ofFieldNodes? fs <;> rfl

/-! ## What is read -/

theorem wellFormed_of_ofName? {name : Text} {s : Shape} (h : ofName? name = some s) :
    s.WellFormed := by
  unfold ofName? at h
  split at h
  · cases h; exact .unknown
  · split at h
    · cases h; exact .scalar _
    · split at h
      · cases h; exact .scalar _
      · split at h
        · cases h; exact .scalar _
        · split at h
          · cases h; exact .scalar _
          · cases h

theorem wellFormed_object_ofPairs {fs : List (Text × Shape)} (hfs : ∀ f ∈ fs, f.2.WellFormed) :
    (object (Entries.ofPairs fs)).WellFormed :=
  .object (Entries.distinct_ofPairs fs) fun f hf => hfs f (Entries.mem_of_mem_ofPairs hf)

mutual

theorem wellFormed_of_ofNode? (node : Json.Value) {s : Shape} (h : ofNode? node = .ok s) :
    s.WellFormed := by
  unfold ofNode? at h
  split at h
  · split at h
    · cases h
      exact wellFormed_of_ofName? (by assumption)
    · cases h
  · rename_i kind body
    split at h
    · split at h
      · cases h
      · rename_i t ht
        cases h
        exact .optional (wellFormed_of_ofNode? body ht)
    · split at h
      · split at h
        · cases h
        · rename_i t ht
          cases h
          exact .array (wellFormed_of_ofNode? body ht)
      · split at h
        · split at h
          · rename_i items
            split at h
            · cases h
            · rename_i ms hms
              cases h
              exact wellFormed_unionOf (wellFormed_of_ofMemberNodes? items hms)
          · cases h
        · split at h
          · split at h
            · rename_i fields
              split at h
              · cases h
              · rename_i fs hfs
                cases h
                exact wellFormed_object_ofPairs (wellFormed_of_ofFieldNodes? fields hfs)
            · cases h
          · cases h
  · cases h

theorem wellFormed_of_ofMemberNodes? (nodes : List Json.Value) {ms : List Shape}
    (h : ofMemberNodes? nodes = .ok ms) : ∀ m ∈ ms, m.WellFormed := by
  cases nodes with
  | nil =>
    cases h
    simp
  | cons node nodes =>
    simp only [ofMemberNodes?] at h
    split at h
    · cases h
    · rename_i m hm
      split at h
      · cases h
      · rename_i ms hms
        cases h
        exact List.forall_mem_cons.2
          ⟨wellFormed_of_ofNode? node hm, wellFormed_of_ofMemberNodes? nodes hms⟩

theorem wellFormed_of_ofFieldNodes? (nodes : List (Text × Json.Value)) {fs : List (Text × Shape)}
    (h : ofFieldNodes? nodes = .ok fs) : ∀ f ∈ fs, f.2.WellFormed := by
  match nodes with
  | [] =>
    cases h
    simp
  | (key, node) :: nodes =>
    simp only [ofFieldNodes?] at h
    split at h
    · cases h
    · rename_i s hs
      split at h
      · cases h
      · rename_i fs hfs
        cases h
        exact List.forall_mem_cons.2
          ⟨wellFormed_of_ofNode? node hs, wellFormed_of_ofFieldNodes? nodes hfs⟩

end

/-! ## Reading back -/

theorem toFieldNodes_eq_map (fs : List (Text × Shape)) :
    toFieldNodes fs = fs.map fun f => (f.1, f.2.toNode) := by
  induction fs with
  | nil => rfl
  | cons f fs ih =>
    obtain ⟨k, s⟩ := f
    rw [toFieldNodes, ih, List.map_cons]

theorem toMemberNodes_eq_map (ms : List Shape) : toMemberNodes ms = ms.map toNode := by
  induction ms with
  | nil => rfl
  | cons m ms ih => rw [toMemberNodes, ih, List.map_cons]

theorem ofFieldNodes?_toFieldNodes {fs : List (Text × Shape)}
    (hfs : ∀ f ∈ fs, ofNode? f.2.toNode = .ok f.2) : ofFieldNodes? (toFieldNodes fs) = .ok fs := by
  induction fs with
  | nil => rfl
  | cons f fs ih =>
    obtain ⟨k, s⟩ := f
    have hs : ofNode? s.toNode = .ok s := hfs (k, s) List.mem_cons_self
    rw [toFieldNodes, ofFieldNodes?, hs, ih fun f hf => hfs f (List.mem_cons_of_mem _ hf)]

theorem ofMemberNodes?_toMemberNodes {ms : List Shape} (hms : ∀ m ∈ ms, ofNode? m.toNode = .ok m) :
    ofMemberNodes? (toMemberNodes ms) = .ok ms := by
  induction ms with
  | nil => rfl
  | cons m ms ih =>
    obtain ⟨hm, hms⟩ := List.forall_mem_cons.1 hms
    rw [toMemberNodes, ofMemberNodes?, hm, ih hms]

theorem flatMap_alternatives {ms : List Shape} (hms : ∀ m ∈ ms, m.isUnion = false) :
    ms.flatMap alternatives = ms := by
  induction ms with
  | nil => rfl
  | cons m ms ih =>
    obtain ⟨hm, hms⟩ := List.forall_mem_cons.1 hms
    have hself : m.alternatives = [m] := by
      cases m with
      | union => cases hm
      | _ => rfl
    rw [List.flatMap_cons, hself, ih hms, List.singleton_append]

/-- The members of a well-formed union make up that union again. -/
theorem unionOf_members {ms : List Shape} (h : (union ms).WellFormed) : unionOf ms = union ms := by
  obtain ⟨hflat, hdistinct, -⟩ := wellFormed_union_iff.1 h
  rw [unionOf, flatMap_alternatives hflat, firsts_of_pairwise hdistinct]

theorem ofNode?_toNode {s : Shape} (hs : s.WellFormed) : ofNode? s.toNode = .ok s := by
  induction s with
  | unknown => rfl
  | scalar k => cases k <;> rfl
  | optional s ih =>
    rw [toNode, ofNode?_optional, ih (wellFormed_optional_iff.1 hs)]
    rfl
  | array s ih =>
    rw [toNode, ofNode?_array, ih (wellFormed_array_iff.1 hs)]
    rfl
  | object fs ih =>
    obtain ⟨hd, hfs⟩ := wellFormed_object_iff.1 hs
    rw [toNode, ofNode?_object, ofFieldNodes?_toFieldNodes fun f hf => ih f hf (hfs f hf)]
    exact congrArg (fun gs => Except.ok (object gs)) (Entries.ofPairs_of_distinct hd)
  | union ms ih =>
    obtain ⟨-, -, hms⟩ := wellFormed_union_iff.1 hs
    rw [toNode, ofNode?_union, ofMemberNodes?_toMemberNodes fun m hm => ih m hm (hms m hm)]
    exact congrArg Except.ok (unionOf_members hs)

end JsonShape.Shape
