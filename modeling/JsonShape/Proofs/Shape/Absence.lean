import JsonShape.Proofs.Shape.Union
import JsonShape.Shape.Optional
/-!
# JsonShape.Proofs.Shape.Absence

When a field may be absent, and what taking off optional marks leaves.

* `Shape.mayBeAbsent`: optional, or a union with an optional member.
* `Shape.strip_optional`: it is what `strip` tells.
* `Shape.leaves`: the shapes behind optional marks and unions.
* `Shape.strip_present_iff`: a property that looks through optional marks and unions survives.
* `Shape.KeptByStrip`: a class of shapes that stripping does not leave.
-/

namespace JsonShape.Shape

/-- Whether a field of this shape may be missing. -/
def mayBeAbsent : Shape → Bool
  | .optional _ => true
  | .union ms => ms.any isOptional
  | _ => false

theorem strip_optional (s : Shape) : s.strip.optional = s.mayBeAbsent := by
  unfold strip
  split
  · rfl
  · rename_i ms
    split
    · rename_i h
      exact h.symm
    · rename_i h
      simpa [mayBeAbsent] using h
  · rename_i hopt hunion
    cases s with
    | optional s => exact absurd rfl (hopt s)
    | union ms => exact absurd rfl (hunion ms)
    | _ => rfl

theorem mayBeAbsent_eq_any_alternatives (s : Shape) :
    s.mayBeAbsent = s.alternatives.any isOptional := by
  cases s <;> simp [mayBeAbsent, alternatives, isOptional]

theorem mayBeAbsent_of_same {s t : Shape} (hs : s.WellFormed) (h : s.same t = true)
    (ht : t.mayBeAbsent = true) : s.mayBeAbsent = true := by
  cases s with
  | optional a => rfl
  | union ms =>
    obtain ⟨ns, rfl, -⟩ := same_inv h
    simp only [mayBeAbsent, List.any_eq_true] at ht ⊢
    obtain ⟨n, hn, ho⟩ := ht
    obtain ⟨m, hm, hmn⟩ := exists_member_of_same hs h hn
    exact ⟨m, hm, (isOptional_eq_of_same hmn).trans ho⟩
  | unknown => cases same_inv h; exact ht
  | scalar k => cases same_inv h; exact ht
  | array a =>
    obtain ⟨b, rfl, -⟩ := same_inv h
    exact ht
  | object fs =>
    obtain ⟨gs, rfl, -⟩ := same_inv h
    exact ht

@[simp] theorem mayBeAbsent_optionalOf (s : Shape) : s.optionalOf.mayBeAbsent = true := by
  cases s <;> rfl

theorem wellFormed_optionalOf {s : Shape} (hs : s.WellFormed) : s.optionalOf.WellFormed := by
  cases s with
  | optional s => exact hs
  | _ => exact .optional hs

theorem wellFormed_unwrap {s : Shape} (hs : s.WellFormed) : s.unwrap.WellFormed := by
  cases s with
  | optional s => exact wellFormed_optional_iff.1 hs
  | _ => exact hs

theorem wellFormed_map_unwrap {ms : List Shape} (hms : (union ms).WellFormed) :
    ∀ s ∈ ms.map unwrap, s.WellFormed := by
  intro s hs
  obtain ⟨m, hm, rfl⟩ := List.mem_map.1 hs
  exact wellFormed_unwrap ((wellFormed_union_iff.1 hms).2.2 m hm)

theorem wellFormed_peel {ms : List Shape} (hms : (union ms).WellFormed) : (peel ms).WellFormed :=
  wellFormed_collapse (wellFormed_unionOf (wellFormed_map_unwrap hms))

theorem wellFormed_strip {s : Shape} (hs : s.WellFormed) : s.strip.present.WellFormed := by
  fun_induction strip s with
  | case1 s ih => exact ih (wellFormed_optional_iff.1 hs)
  | case2 ms _ ih => exact ih (wellFormed_peel hs)
  | case3 ms _ => exact hs
  | case4 s => exact hs

/-! ## Leaves -/

mutual

/-- The shapes that are left when optional marks and unions are looked through. -/
def leaves : Shape → List Shape
  | .optional s => s.leaves
  | .union ms => memberLeaves ms
  | s => [s]

def memberLeaves : List Shape → List Shape
  | [] => []
  | m :: ms => m.leaves ++ memberLeaves ms

end

theorem leaves_union (ms : List Shape) : (union ms).leaves = ms.flatMap leaves := by
  rw [leaves]
  induction ms with
  | nil => rfl
  | cons m ms ih => rw [memberLeaves, ih, List.flatMap_cons]

/-! ## Properties that look through optional marks and unions -/

section Through

variable {P : Shape → Prop} (hP : Respected P) (hopt : ∀ s, P (optional s) ↔ P s)
  (hunion : ∀ ms, P (union ms) ↔ ∃ m ∈ ms, P m)

include hopt in
theorem optionalOf_iff (s : Shape) : P s.optionalOf ↔ P s := by
  cases s with
  | optional s => exact Iff.rfl
  | _ => exact hopt _

include hopt in
theorem unwrap_iff (s : Shape) : P s.unwrap ↔ P s := by
  cases s with
  | optional s => exact (hopt s).symm
  | _ => exact Iff.rfl

include hunion in
theorem collapse_iff (s : Shape) : P s.collapse ↔ P s := by
  unfold collapse
  split
  · simp [hunion]
  · exact Iff.rfl

include hP hopt hunion in
theorem peel_iff {ms : List Shape} (hms : (union ms).WellFormed) : P (peel ms) ↔ P (union ms) := by
  rw [peel, collapse_iff hunion, unionOf_iff hP hunion (wellFormed_map_unwrap hms), hunion]
  constructor
  · rintro ⟨s, hs, h⟩
    obtain ⟨m, hm, rfl⟩ := List.mem_map.1 hs
    exact ⟨m, hm, (unwrap_iff hopt m).1 h⟩
  · rintro ⟨m, hm, h⟩
    exact ⟨m.unwrap, List.mem_map_of_mem hm, (unwrap_iff hopt m).2 h⟩

include hP hopt hunion in
theorem strip_present_iff {s : Shape} (hs : s.WellFormed) : P s.strip.present ↔ P s := by
  fun_induction strip s with
  | case1 s ih => rw [ih (wellFormed_optional_iff.1 hs), hopt]
  | case2 ms _ ih => rw [ih (wellFormed_peel hs), peel_iff hP hopt hunion hs]
  | case3 ms _ => exact Iff.rfl
  | case4 s => exact Iff.rfl

end Through

/-! ## Classes that stripping does not leave -/

/-- A class of shapes that is closed under taking off a mark, under taking an alternative, of which
there is always one, and under making unions of two members or more. -/
structure KeptByStrip (P : Shape → Prop) : Prop where
  unwrap : ∀ {s : Shape}, P s → P s.unwrap
  alternatives : ∀ {s : Shape}, P s → s.alternatives ≠ [] ∧ ∀ m ∈ s.alternatives, P m
  unionOf : ∀ {ss : List Shape}, (∀ s ∈ ss, P s) → 2 ≤ (unionOf ss).alternatives.length →
    P (unionOf ss)

namespace KeptByStrip

variable {P : Shape → Prop} (hP : KeptByStrip P)

include hP

theorem collapse {ss : List Shape} (hne : ss ≠ []) (hss : ∀ s ∈ ss, P s) :
    P (Shape.unionOf ss).collapse := by
  rcases collapse_unionOf_cases hne fun s hs => (hP.alternatives (hss s hs)).1 with h | ⟨hlen, h⟩
  · obtain ⟨s, hs, hm⟩ := List.mem_flatMap.1 h
    exact (hP.alternatives (hss s hs)).2 _ hm
  · rw [h]
    exact hP.unionOf hss hlen

theorem peel {ms : List Shape} (hne : ms ≠ []) (hms : ∀ m ∈ ms, P m) : P (peel ms) := by
  refine hP.collapse (by simpa using hne) fun s hs => ?_
  obtain ⟨m, hm, rfl⟩ := List.mem_map.1 hs
  exact hP.unwrap (hms m hm)

theorem strip {s : Shape} (hs : P s) : P s.strip.present := by
  fun_induction Shape.strip s with
  | case1 s ih => exact ih (hP.unwrap hs)
  | case2 ms _ ih =>
    obtain ⟨hne, hms⟩ := hP.alternatives hs
    exact ih (hP.peel hne hms)
  | case3 ms _ => exact hs
  | case4 s => exact hs

end KeptByStrip

end JsonShape.Shape
