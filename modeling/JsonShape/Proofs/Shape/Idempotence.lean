import JsonShape.Proofs.Shape.Join
import JsonShape.Proofs.Shape.Leaves
/-!
# JsonShape.Proofs.Shape.Idempotence

Joining a shape with itself, which gives the very same shape.

* `Shape.joinFields_self`: each field meets itself, and none is left over.
* `Shape.join_self`: a well-formed shape joined with itself.
* `Shape.join_copies`: any number of copies joined, from the left or in pairs.
-/

namespace JsonShape.Shape

theorem joinFields_self {fs : List (Text × Shape)} (hd : Entries.Distinct fs)
    (hfs : ∀ f ∈ fs, f.2.join f.2 = f.2) : joinFields fs fs = fs := by
  have hleft : joinLeft fs fs = fs := by
    have hself : ∀ f ∈ fs, (f.1, joinUnder fs f.1 f.2) = f := by
      intro f hf
      rw [joinUnder, Entries.get?_of_mem hd hf]
      dsimp only
      rw [hfs f hf]
    rw [joinLeft_eq_map, List.map_congr_left hself, List.map_id']
  have hright : onlyRight fs fs = [] := by
    rw [onlyRight, List.map_eq_nil_iff, List.filter_eq_nil_iff]
    intro f hf
    simp [Entries.contains_eq_true_iff.2 (Entries.mem_keys_of_mem hf)]
  rw [joinFields, hleft, hright, List.append_nil]

theorem join_self {s : Shape} (hs : s.WellFormed) : s.join s = s := by
  induction s with
  | unknown => rfl
  | scalar k => exact scalar_join_self k
  | optional s ih => exact congrArg optional (ih (wellFormed_optional_iff.1 hs))
  | array s ih => exact congrArg array (ih (wellFormed_array_iff.1 hs))
  | object fs ih =>
    obtain ⟨hd, hfs⟩ := wellFormed_object_iff.1 hs
    rw [object_join, joinFields_self hd fun f hf => ih f hf (hfs f hf)]
  | union ms =>
    obtain ⟨-, hd, hms⟩ := wellFormed_union_iff.1 hs
    have htwice : [union ms, union ms].flatMap alternatives = ms ++ ms := by simp [alternatives]
    rw [join_of_not_fits rfl, unionOf, htwice, firsts_append_self hms, firsts_of_pairwise hd]

/-- Copies of a shape, one or more, are joined to the shape itself, with its fields and members in
their order at every depth. -/
theorem join_copies (s : Shape) (hs : s.WellFormed) :
    s.join s = s ∧ ∀ n, 1 ≤ n →
      joinAll (List.replicate n s) = s ∧ joinPairs (List.replicate n s) = s := by
  have hself := join_self hs
  have hclosed : ∀ {t u : Shape}, t = s → u = s → t.join u = s := by
    rintro t u rfl rfl
    exact hself
  refine ⟨hself, fun n hn => ?_⟩
  have hne : List.replicate n s ≠ [] := by
    rw [Ne, List.replicate_eq_nil_iff]
    omega
  have hcopies : ∀ t ∈ List.replicate n s, t = s := fun t ht => List.eq_of_mem_replicate ht
  exact ⟨joinAll_closed hclosed hne hcopies, joinPairs_closed hclosed hne hcopies⟩

/-- Five copies, so that one waits in two rounds. -/
theorem join_copies_five :
    let u : Shape := .union [.optional (.scalar .number), .scalar .number, .array .unknown]
    let s : Shape := .object [("b", .optional u), ("a", .array u)]
    s.WellFormed ∧ s.join s = s ∧ joinAll [s, s, s, s, s] = s ∧ joinPairs [s, s, s, s, s] = s := by
  intro u s
  have hu : u.WellFormed := by
    simp [u, wellFormed_union_iff, wellFormed_optional_iff, wellFormed_array_iff, isUnion, same,
      WellFormed.scalar, WellFormed.unknown]
  have hs : s.WellFormed := by
    simp +decide [s, wellFormed_object_iff, wellFormed_optional_iff, wellFormed_array_iff,
      Entries.Distinct, Entries.keys, hu]
  obtain ⟨hself, hcopies⟩ := join_copies s hs
  exact ⟨hs, hself, hcopies 5 (by decide)⟩

end JsonShape.Shape
