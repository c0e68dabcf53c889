import JsonShape.Proofs.Shape.Absence
/-!
# JsonShape.Proofs.Shape.Leaves

What is left of a shape when its optional marks are taken off: its leaves, of equal ones the first.

* `Shape.firsts_append`: which of two lists put together stay.
* `Shape.firsts_leaves_unionOf`: the leaves of a union are those of the shapes it is made of.
* `Shape.alternatives_strip_present`: the alternatives that `strip` leaves are the leaves.
* `Shape.strip_present_of_plural`: without unions of a single member they are all that it leaves.
-/

namespace JsonShape.Shape

/-! ## Keeping the first of equal shapes -/

theorem firsts_append (ss ts : List Shape) :
    firsts (ss ++ ts) = firsts ss ++ (firsts ts).filter fun t => !ss.any fun s => s.same t := by
  induction ss with
  | nil => exact (List.filter_eq_self.2 fun _ _ => rfl).symm
  | cons s ss ih => simp [firsts, ih, List.filter_append, List.filter_filter]

theorem firsts_append_self {ss : List Shape} (hss : ∀ s ∈ ss, s.WellFormed) :
    firsts (ss ++ ss) = firsts ss := by
  rw [firsts_append, List.filter_eq_nil_iff.2, List.append_nil]
  intro s hs
  have hmem := mem_of_mem_firsts hs
  simpa using ⟨s, hmem, same_refl (hss s hmem)⟩

theorem firsts_of_pairwise {ss : List Shape} (h : ss.Pairwise fun s t => s.same t = false) :
    firsts ss = ss := by
  induction ss with
  | nil => rfl
  | cons s ss ih =>
    obtain ⟨hs, hss⟩ := List.pairwise_cons.1 h
    rw [firsts, ih hss, List.filter_eq_self.2]
    intro t ht
    simp [hs t ht]

/-- Selecting commutes with dropping equal shapes, if what is selected does not depend on which of
them stands there. -/
theorem firsts_filter {p : Shape → Bool} {ss : List Shape}
    (hp : ∀ s ∈ ss, ∀ t, s.same t = true → p s = p t) :
    firsts (ss.filter p) = (firsts ss).filter p := by
  induction ss with
  | nil => rfl
  | cons s ss ih =>
    have ih := ih fun u hu => hp u (List.mem_cons_of_mem _ hu)
    by_cases hs : p s = true
    · simp [firsts, hs, ih, List.filter_filter, Bool.and_comm]
    · have hdrop : ∀ t, (p t && !s.same t) = p t := by
        intro t
        cases hst : s.same t with
        | false => simp
        | true => simp [← hp s List.mem_cons_self t hst, hs]
      simp [firsts, hs, ih, List.filter_filter, hdrop]

theorem any_same_congr (us : List Shape) {s t : Shape} (hs : s.WellFormed) (h : s.same t = true) :
    (us.any fun u => u.same s) = us.any fun u => u.same t := by
  rw [Bool.eq_iff_iff, List.any_eq_true, List.any_eq_true]
  constructor
  · rintro ⟨u, hu, hus⟩
    exact ⟨u, hu, same_trans hus h⟩
  · rintro ⟨u, hu, hut⟩
    exact ⟨u, hu, same_trans hut (same_symm hs h)⟩

theorem any_same_firsts {ss : List Shape} (hss : ∀ s ∈ ss, s.WellFormed) (t : Shape) :
    ((firsts ss).any fun s => s.same t) = ss.any fun s => s.same t := by
  rw [Bool.eq_iff_iff, List.any_eq_true, List.any_eq_true]
  constructor
  · rintro ⟨s, hs, hst⟩
    exact ⟨s, mem_of_mem_firsts hs, hst⟩
  · rintro ⟨s, hs, hst⟩
    obtain ⟨u, hu, hus⟩ := exists_same_mem_firsts (hss s hs) hs
    exact ⟨u, hu, same_trans hus hst⟩

theorem firsts_append_congr {ss ss' ts ts' : List Shape} (hss : ∀ s ∈ ss, s.WellFormed)
    (hss' : ∀ s ∈ ss', s.WellFormed) (hs : firsts ss = firsts ss') (ht : firsts ts = firsts ts') :
    firsts (ss ++ ts) = firsts (ss' ++ ts') := by
  have hany : ∀ t, (ss.any fun s => s.same t) = ss'.any fun s => s.same t := by
    intro t
    rw [← any_same_firsts hss, ← any_same_firsts hss', hs]
  rw [firsts_append, firsts_append, hs, ht]
  simp only [hany]

/-! ## Leaves -/

theorem wellFormed_of_mem_leaves {s l : Shape} (hs : s.WellFormed) (hl : l ∈ s.leaves) :
    l.WellFormed := by
  induction s with
  | optional s ih => exact ih (wellFormed_optional_iff.1 hs) hl
  | union ms ih =>
    rw [leaves_union] at hl
    obtain ⟨m, hm, hl⟩ := List.mem_flatMap.1 hl
    exact ih m hm ((wellFormed_union_iff.1 hs).2.2 m hm) hl
  | _ => exact List.mem_singleton.1 hl ▸ hs

/-- Equal shapes have equal leaves. -/
theorem exists_leaf_of_same {s t l : Shape} (hs : s.WellFormed) (h : s.same t = true)
    (hl : l ∈ t.leaves) : ∃ k ∈ s.leaves, k.same l = true := by
  induction s generalizing t with
  | optional a ih =>
    obtain ⟨b, rfl, hab⟩ := same_inv h
    exact ih (wellFormed_optional_iff.1 hs) hab hl
  | union ms ih =>
    obtain ⟨ns, rfl, -⟩ := same_inv h
    rw [leaves_union] at hl ⊢
    obtain ⟨n, hn, hl⟩ := List.mem_flatMap.1 hl
    obtain ⟨m, hm, hmn⟩ := exists_member_of_same hs h hn
    obtain ⟨k, hk, hkl⟩ := ih m hm ((wellFormed_union_iff.1 hs).2.2 m hm) hmn hl
    exact ⟨k, List.mem_flatMap.2 ⟨m, hm, hk⟩, hkl⟩
  | unknown =>
    cases same_inv h
    exact ⟨_, hl, same_refl (wellFormed_of_mem_leaves hs hl)⟩
  | scalar k =>
    cases same_inv h
    exact ⟨_, hl, same_refl (wellFormed_of_mem_leaves hs hl)⟩
  | array a =>
    obtain ⟨b, rfl, -⟩ := same_inv h
    exact ⟨array a, List.mem_singleton.2 rfl, List.mem_singleton.1 hl ▸ h⟩
  | object fs =>
    obtain ⟨gs, rfl, -⟩ := same_inv h
    exact ⟨object fs, List.mem_singleton.2 rfl, List.mem_singleton.1 hl ▸ h⟩

theorem leaves_alternatives (s : Shape) : s.alternatives.flatMap leaves = s.leaves := by
  cases s with
  | union ms => exact (leaves_union ms).symm
  | _ => simp [alternatives]

theorem leaves_collapse (s : Shape) : s.collapse.leaves = s.leaves := by
  unfold collapse
  split
  · simp [leaves_union]
  · rfl

theorem leaves_unwrap (s : Shape) : s.unwrap.leaves = s.leaves := by
  cases s <;> rfl

theorem leaves_optionalOf (s : Shape) : s.optionalOf.leaves = s.leaves := by
  cases s <;> rfl

/-- A shape that cannot be absent shows its leaves. -/
theorem leaves_of_not_mayBeAbsent {s : Shape} (hs : s.WellFormed) (h : s.mayBeAbsent = false) :
    s.leaves = s.alternatives := by
  cases s with
  | optional s => cases h
  | union ms =>
    have hleaf : ∀ m ∈ ms, m.leaves = [m] := by
      intro m hm
      have hunion := (wellFormed_union_iff.1 hs).1 m hm
      have hoptional : m.isOptional = false := by
        simp only [mayBeAbsent, List.any_eq_false] at h
        simpa using h m hm
      cases m with
      | optional m => cases hoptional
      | union ms => cases hunion
      | _ => rfl
    rw [leaves_union, List.flatMap_def, List.map_congr_left hleaf, ← List.flatMap_def,
      List.flatMap_singleton']
    rfl
  | _ => rfl

/-! ## Leaves of unions -/

/-- Dropping shapes that equal `s` drops leaves that equal leaves of `s`. -/
theorem filter_leaves_of_filter {s : Shape} (hs : s.WellFormed) (ts : List Shape) :
    ((ts.filter fun t => !s.same t).flatMap leaves).filter
        (fun l => !s.leaves.any fun k => k.same l) =
      (ts.flatMap leaves).filter fun l => !s.leaves.any fun k => k.same l := by
  induction ts with
  | nil => rfl
  | cons t ts ih =>
    cases hst : s.same t with
    | false => simp [hst, List.filter_append, ih]
    | true =>
      have hnone : (t.leaves.filter fun l => !s.leaves.any fun k => k.same l) = [] := by
        refine List.filter_eq_nil_iff.2 fun l hl => ?_
        simpa using exists_leaf_of_same hs hst hl
      simp only [List.filter_cons, hst, Bool.not_true, Bool.false_eq_true, if_false,
        List.flatMap_cons, List.filter_append, hnone, List.nil_append]
      exact ih

theorem firsts_flatMap_leaves_firsts {ss : List Shape} (hss : ∀ s ∈ ss, s.WellFormed) :
    firsts ((firsts ss).flatMap leaves) = firsts (ss.flatMap leaves) := by
  induction ss with
  | nil => rfl
  | cons s ss ih =>
    obtain ⟨hs, hss⟩ := List.forall_mem_cons.1 hss
    have hwf : ∀ ts : List Shape, (∀ t ∈ ts, t.WellFormed) → ∀ l ∈ ts.flatMap leaves,
        l.WellFormed := by
      intro ts hts l hl
      obtain ⟨t, ht, hl⟩ := List.mem_flatMap.1 hl
      exact wellFormed_of_mem_leaves (hts t ht) hl
    -- What the leaves of `s` leave of a list of leaves does not see which equal ones were dropped.
    have hrest : ∀ ts : List Shape, (∀ t ∈ ts, t.WellFormed) →
        (firsts (ts.flatMap leaves)).filter (fun l => !s.leaves.any fun k => k.same l) =
          firsts ((ts.flatMap leaves).filter fun l => !s.leaves.any fun k => k.same l) := by
      intro ts hts
      refine (firsts_filter fun l hl t hlt => ?_).symm
      rw [any_same_congr s.leaves (hwf ts hts l hl) hlt]
    have hfirsts : ∀ t ∈ firsts ss, t.WellFormed := fun t ht => hss t (mem_of_mem_firsts ht)
    rw [firsts, List.flatMap_cons, List.flatMap_cons, firsts_append, firsts_append,
      hrest _ fun t ht => hfirsts t (List.mem_filter.1 ht).1, filter_leaves_of_filter hs,
      ← hrest _ hfirsts, ih hss]

theorem firsts_leaves_unionOf {ss : List Shape} (hss : ∀ s ∈ ss, s.WellFormed) :
    firsts (unionOf ss).leaves = firsts (ss.flatMap leaves) := by
  rw [unionOf, leaves_union,
    firsts_flatMap_leaves_firsts fun m hm => wellFormed_of_mem_flatMap_alternatives hss hm,
    List.flatMap_assoc]
  simp only [leaves_alternatives]

/-! ## Stripping -/

theorem firsts_leaves_peel {ms : List Shape} (hms : (union ms).WellFormed) :
    firsts (peel ms).leaves = firsts (union ms).leaves := by
  rw [peel, leaves_collapse, firsts_leaves_unionOf (wellFormed_map_unwrap hms), leaves_union,
    List.flatMap_map]
  simp only [leaves_unwrap]

theorem firsts_leaves_strip {s : Shape} (hs : s.WellFormed) :
    firsts s.strip.present.leaves = firsts s.leaves := by
  fun_induction strip s with
  | case1 s ih => exact ih (wellFormed_optional_iff.1 hs)
  | case2 ms _ ih => exact (ih (wellFormed_peel hs)).trans (firsts_leaves_peel hs)
  | case3 ms _ => rfl
  | case4 s => rfl

theorem mayBeAbsent_strip_present (s : Shape) : s.strip.present.mayBeAbsent = false := by
  fun_induction strip s with
  | case1 s ih => exact ih
  | case2 ms _ ih => exact ih
  | case3 ms h => simpa [mayBeAbsent] using h
  | case4 s hopt hunion =>
    cases s with
    | optional s => exact absurd rfl (hopt s)
    | union ms => exact absurd rfl (hunion ms)
    | _ => rfl

theorem pairwise_alternatives {s : Shape} (hs : s.WellFormed) :
    s.alternatives.Pairwise fun m n => m.same n = false := by
  cases s with
  | union ms => exact (wellFormed_union_iff.1 hs).2.1
  | _ => exact List.pairwise_singleton _ _

theorem alternatives_strip_present {s : Shape} (hs : s.WellFormed) :
    s.strip.present.alternatives = firsts s.leaves := by
  have hwf := wellFormed_strip hs
  rw [← firsts_leaves_strip hs, leaves_of_not_mayBeAbsent hwf (mayBeAbsent_strip_present s),
    firsts_of_pairwise (pairwise_alternatives hwf)]

/-! ## Unions of more than one member -/

/-- Every union, at any depth, has two members at least. -/
inductive Plural : Shape → Prop where
  | unknown : Plural .unknown
  | scalar (k : Scalar) : Plural (.scalar k)
  | optional {s : Shape} : Plural s → Plural (.optional s)
  | array {s : Shape} : Plural s → Plural (.array s)
  | object {fs : List (Text × Shape)} : (∀ f ∈ fs, Plural f.2) → Plural (.object fs)
  | union {ms : List Shape} : 2 ≤ ms.length → (∀ m ∈ ms, Plural m) → Plural (.union ms)

theorem plural_unwrap {s : Shape} (hs : s.Plural) : s.unwrap.Plural := by
  cases hs with
  | optional hs => exact hs
  | unknown => exact .unknown
  | scalar k => exact .scalar k
  | array hs => exact .array hs
  | object hfs => exact .object hfs
  | union hlen hms => exact .union hlen hms

theorem plural_alternatives {s : Shape} (hs : s.Plural) :
    s.alternatives ≠ [] ∧ ∀ m ∈ s.alternatives, m.Plural := by
  cases s with
  | union ms =>
    cases hs with
    | union hlen hms =>
      refine ⟨?_, hms⟩
      rintro rfl
      simp at hlen
  | _ => exact ⟨List.cons_ne_nil _ _, fun m hm => List.mem_singleton.1 hm ▸ hs⟩

theorem plural_unionOf {ss : List Shape} (hss : ∀ s ∈ ss, s.Plural)
    (hlen : 2 ≤ (unionOf ss).alternatives.length) : (unionOf ss).Plural := by
  refine .union hlen fun m hm => ?_
  obtain ⟨s, hs, hm⟩ := List.mem_flatMap.1 (mem_of_mem_firsts hm)
  exact (plural_alternatives (hss s hs)).2 m hm

theorem keptByStrip_plural : KeptByStrip Plural where
  unwrap := plural_unwrap
  alternatives := plural_alternatives
  unionOf := plural_unionOf

/-- Where no union has a single member, the alternatives tell which shape it is. -/
theorem eq_collapse_of_plural {s : Shape} (hs : s.Plural) :
    s = (union s.alternatives).collapse := by
  cases hs with
  | @union ms hlen _ =>
    match ms, hlen with
    | m :: n :: rest, _ => rfl
  | _ => rfl

theorem strip_present_of_plural {s : Shape} (hs : s.Plural) (hwf : s.WellFormed) :
    s.strip.present = (union (firsts s.leaves)).collapse := by
  rw [← alternatives_strip_present hwf]
  exact eq_collapse_of_plural (keptByStrip_plural.strip hs)

end JsonShape.Shape
