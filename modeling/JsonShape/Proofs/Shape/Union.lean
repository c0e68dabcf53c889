import JsonShape.Proofs.Shape.Same
/-!
# JsonShape.Proofs.Shape.Union

What a union is made of, once members of members are taken in and equal ones dropped.

* `Shape.wellFormed_unionOf`: a union of well-formed shapes is well-formed.
* `Shape.exists_mem_unionOf_iff`: a property that equal shapes share holds of a member of the union
  exactly if it holds of an alternative that went into it.
-/

namespace JsonShape.Shape

/-! ## Keeping the first of equal shapes -/

theorem mem_of_mem_firsts {s : Shape} {ss : List Shape} (h : s ∈ firsts ss) : s ∈ ss := by
  induction ss with
  | nil => cases h
  | cons t ss ih =>
    rcases List.mem_cons.1 h with h | h
    · simp [h]
    · exact List.mem_cons_of_mem _ (ih (List.mem_filter.1 h).1)

theorem pairwise_firsts (ss : List Shape) :
    (firsts ss).Pairwise fun s t => s.same t = false := by
  induction ss with
  | nil => exact .nil
  | cons s ss ih =>
    refine List.pairwise_cons.2 ⟨?_, ih.sublist List.filter_sublist⟩
    intro t ht
    simpa using (List.mem_filter.1 ht).2

theorem exists_same_mem_firsts {s : Shape} {ss : List Shape} (hs : s.WellFormed) (h : s ∈ ss) :
    ∃ t ∈ firsts ss, t.same s = true := by
  induction ss with
  | nil => cases h
  | cons u ss ih =>
    rcases List.mem_cons.1 h with rfl | h
    · exact ⟨s, by simp [firsts], same_refl hs⟩
    · obtain ⟨t, ht, hts⟩ := ih h
      by_cases hut : u.same t = true
      · exact ⟨u, by simp [firsts], same_trans hut hts⟩
      · exact ⟨t, by simp [firsts, ht, hut], hts⟩

/-- Whether `P` passes to a shape from one that equals it. -/
def Respected (P : Shape → Prop) : Prop :=
  ∀ ⦃s t : Shape⦄, s.WellFormed → s.same t = true → P t → P s

theorem exists_mem_firsts_iff {P : Shape → Prop} (hP : Respected P) {ss : List Shape}
    (hss : ∀ s ∈ ss, s.WellFormed) : (∃ s ∈ firsts ss, P s) ↔ ∃ s ∈ ss, P s := by
  constructor
  · rintro ⟨s, hs, h⟩
    exact ⟨s, mem_of_mem_firsts hs, h⟩
  · rintro ⟨s, hs, h⟩
    obtain ⟨t, ht, hts⟩ := exists_same_mem_firsts (hss s hs) hs
    exact ⟨t, ht, hP (hss t (mem_of_mem_firsts ht)) hts h⟩

theorem two_le_length_firsts {ss : List Shape} (hss : ∀ s ∈ ss, s.WellFormed) {s t : Shape}
    (hs : s ∈ ss) (ht : t ∈ ss) (hne : s.same t = false) : 2 ≤ (firsts ss).length := by
  obtain ⟨u, hu, hus⟩ := exists_same_mem_firsts (hss s hs) hs
  obtain ⟨v, hv, hvt⟩ := exists_same_mem_firsts (hss t ht) ht
  match hfirsts : firsts ss with
  | [] =>
    rw [hfirsts] at hu
    cases hu
  | [w] =>
    have huwf := hss u (mem_of_mem_firsts hu)
    rw [hfirsts, List.mem_singleton] at hu hv
    rw [hv, ← hu] at hvt
    rw [same_trans (same_symm huwf hus) hvt] at hne
    cases hne
  | _ :: _ :: _ => simp

/-! ## Alternatives -/

theorem wellFormed_of_mem_alternatives {s m : Shape} (hs : s.WellFormed)
    (hm : m ∈ s.alternatives) : m.WellFormed := by
  cases s with
  | union ms => exact (wellFormed_union_iff.1 hs).2.2 m hm
  | _ =>
    simp only [alternatives, List.mem_singleton] at hm
    exact hm ▸ hs

theorem isUnion_of_mem_alternatives {s m : Shape} (hs : s.WellFormed) (hm : m ∈ s.alternatives) :
    m.isUnion = false := by
  cases s with
  | union ms => exact (wellFormed_union_iff.1 hs).1 m hm
  | _ =>
    simp only [alternatives, List.mem_singleton] at hm
    rw [hm]
    rfl

theorem wellFormed_of_mem_flatMap_alternatives {ss : List Shape} (hss : ∀ s ∈ ss, s.WellFormed)
    {m : Shape} (hm : m ∈ ss.flatMap alternatives) : m.WellFormed := by
  obtain ⟨s, hs, hm⟩ := List.mem_flatMap.1 hm
  exact wellFormed_of_mem_alternatives (hss s hs) hm

/-- A union with two members keeps two that are not equal. -/
theorem exists_alternatives_not_same {s : Shape} (hs : s.WellFormed)
    (hlen : 2 ≤ s.alternatives.length) :
    ∃ m ∈ s.alternatives, ∃ n ∈ s.alternatives, m.same n = false := by
  cases s with
  | union ms =>
    match ms, hlen with
    | m :: n :: rest, _ =>
      have hpairwise := (wellFormed_union_iff.1 hs).2.1
      exact ⟨m, by simp [alternatives], n, by simp [alternatives],
        (List.pairwise_cons.1 hpairwise).1 n (by simp)⟩
  | _ => simp [alternatives] at hlen

/-! ## Unions -/

theorem wellFormed_unionOf {ss : List Shape} (hss : ∀ s ∈ ss, s.WellFormed) :
    (unionOf ss).WellFormed := by
  refine wellFormed_union_iff.2 ⟨?_, pairwise_firsts _, ?_⟩
  · intro m hm
    obtain ⟨s, hs, hm⟩ := List.mem_flatMap.1 (mem_of_mem_firsts hm)
    exact isUnion_of_mem_alternatives (hss s hs) hm
  · intro m hm
    exact wellFormed_of_mem_flatMap_alternatives hss (mem_of_mem_firsts hm)

theorem exists_mem_unionOf_iff {P : Shape → Prop} (hP : Respected P) {ss : List Shape}
    (hss : ∀ s ∈ ss, s.WellFormed) :
    (∃ m ∈ (unionOf ss).alternatives, P m) ↔ ∃ s ∈ ss, ∃ m ∈ s.alternatives, P m := by
  show (∃ m ∈ firsts (ss.flatMap alternatives), P m) ↔ _
  rw [exists_mem_firsts_iff hP fun m hm => wellFormed_of_mem_flatMap_alternatives hss hm]
  constructor
  · rintro ⟨m, hm, h⟩
    obtain ⟨s, hs, hm⟩ := List.mem_flatMap.1 hm
    exact ⟨s, hs, m, hm, h⟩
  · rintro ⟨s, hs, m, hm, h⟩
    exact ⟨m, List.mem_flatMap.2 ⟨s, hs, hm⟩, h⟩

/-- A property that a union has through its members is, for a union that is made of shapes, a
property that one of them has. -/
theorem unionOf_iff {P : Shape → Prop} (hP : Respected P)
    (hunion : ∀ ms, P (union ms) ↔ ∃ m ∈ ms, P m) {ss : List Shape}
    (hss : ∀ s ∈ ss, s.WellFormed) : P (unionOf ss) ↔ ∃ s ∈ ss, P s := by
  have halt : ∀ s : Shape, P s ↔ ∃ m ∈ s.alternatives, P m := by
    intro s
    cases s with
    | union ms => exact hunion ms
    | _ => simp [alternatives]
  rw [halt, exists_mem_unionOf_iff hP hss]
  constructor
  · rintro ⟨s, hs, h⟩
    exact ⟨s, hs, (halt s).2 h⟩
  · rintro ⟨s, hs, h⟩
    exact ⟨s, hs, (halt s).1 h⟩

/-- What is made of some shapes is one of their alternatives, or a union of two at least. -/
theorem collapse_unionOf_cases {ss : List Shape} (hne : ss ≠ [])
    (halternatives : ∀ s ∈ ss, s.alternatives ≠ []) :
    (unionOf ss).collapse ∈ ss.flatMap alternatives ∨
      2 ≤ (unionOf ss).alternatives.length ∧ (unionOf ss).collapse = unionOf ss := by
  obtain ⟨s, hs⟩ := List.exists_mem_of_ne_nil _ hne
  obtain ⟨m, hm⟩ := List.exists_mem_of_ne_nil _ (halternatives s hs)
  have hmem : m ∈ ss.flatMap alternatives := List.mem_flatMap.2 ⟨s, hs, hm⟩
  rw [unionOf, alternatives]
  rcases hfirsts : firsts (ss.flatMap alternatives) with _ | ⟨k, _ | ⟨l, rest⟩⟩
  · cases hflat : ss.flatMap alternatives with
    | nil => simp [hflat] at hmem
    | cons n ns => simp [hflat, firsts] at hfirsts
  · exact .inl (mem_of_mem_firsts (by simp [hfirsts, collapse]))
  · exact .inr ⟨by simp, rfl⟩

theorem wellFormed_collapse {s : Shape} (hs : s.WellFormed) : s.collapse.WellFormed := by
  unfold collapse
  split
  · exact (wellFormed_union_iff.1 hs).2.2 _ (by simp)
  · exact hs

end JsonShape.Shape
