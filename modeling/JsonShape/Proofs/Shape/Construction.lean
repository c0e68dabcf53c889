import Mathlib.Logic.ExistsUnique
import JsonShape.Proofs.Shape.Congruence
/-!
# JsonShape.Proofs.Shape.Construction

Unions as they are made: of equal members the first stays, in its place, and unions that went in are
no longer there.

* `Shape.existsUnique_same_mem_firsts`: each shape that goes in has one representative.
* `Shape.firsts_of_new`: a shape that no earlier one equals stays, behind the earlier ones that stay.
* `Shape.unionOf_block`: making a union of some neighbours first makes no difference.
* `Shape.unionOf_normalizes`: all of this, and that no operation leaves the well-formed shapes.
-/

namespace JsonShape.Shape

/-! ## Representatives -/

theorem eq_of_same_of_pairwise {ms : List Shape} (hd : ms.Pairwise fun m n => m.same n = false)
    {m n : Shape} (hm : m ∈ ms) (hn : n ∈ ms) (hmn : m.same n = true) (hnm : n.same m = true) :
    m = n := by
  induction hd with
  | nil => cases hm
  | @cons k ms hk _ ih =>
    rcases List.mem_cons.1 hm with rfl | hm' <;> rcases List.mem_cons.1 hn with rfl | hn'
    · rfl
    · rw [hk n hn'] at hmn
      cases hmn
    · rw [hk m hm'] at hnm
      cases hnm
    · exact ih hm' hn'

theorem existsUnique_same_mem_firsts {ss : List Shape} (hss : ∀ s ∈ ss, s.WellFormed) {s : Shape}
    (hs : s ∈ ss) : ∃! m, m ∈ firsts ss ∧ m.same s = true := by
  have hsymm : ∀ {m : Shape}, m ∈ firsts ss → m.same s = true → s.same m = true :=
    fun hm hms => same_symm (hss _ (mem_of_mem_firsts hm)) hms
  obtain ⟨m, hm, hms⟩ := exists_same_mem_firsts (hss s hs) hs
  refine ⟨m, ⟨hm, hms⟩, ?_⟩
  rintro n ⟨hn, hns⟩
  exact eq_of_same_of_pairwise (pairwise_firsts ss) hn hm (same_trans hns (hsymm hm hms))
    (same_trans hms (hsymm hn hns))

/-! ## Order -/

theorem firsts_sublist (ss : List Shape) : (firsts ss).Sublist ss := by
  induction ss with
  | nil => exact .slnil
  | cons s ss ih => exact (List.filter_sublist.trans ih).cons_cons s

theorem firsts_of_new {before : List Shape} {s : Shape} (h : ∀ t ∈ before, t.same s = false)
    (after : List Shape) :
    ∃ rest, firsts (before ++ s :: after) = firsts before ++ s :: rest ∧ rest.Sublist after := by
  have hnew : (!before.any fun t => t.same s) = true := by simpa using h
  rw [firsts_append, firsts, List.filter_cons, if_pos hnew]
  exact ⟨_, rfl, List.filter_sublist.trans (List.filter_sublist.trans (firsts_sublist after))⟩

/-! ## Blocks and permutations -/

theorem firsts_firsts (ss : List Shape) : firsts (firsts ss) = firsts ss :=
  firsts_of_pairwise (pairwise_firsts ss)

theorem unionOf_block {before block after : List Shape}
    (h : ∀ s ∈ before ++ block ++ after, s.WellFormed) :
    unionOf (before ++ unionOf block :: after) = unionOf (before ++ block ++ after) := by
  rw [List.forall_mem_append, List.forall_mem_append] at h
  obtain ⟨⟨hbefore, hblock⟩, -⟩ := h
  have hwf : ∀ {ss : List Shape}, (∀ s ∈ ss, s.WellFormed) →
      ∀ m ∈ ss.flatMap alternatives, m.WellFormed :=
    fun hss m hm => wellFormed_of_mem_flatMap_alternatives hss hm
  have hmembers : (unionOf block).alternatives = firsts (block.flatMap alternatives) := rfl
  have hafter : firsts (firsts (block.flatMap alternatives) ++ after.flatMap alternatives) =
      firsts (block.flatMap alternatives ++ after.flatMap alternatives) :=
    firsts_append_congr (fun m hm => hwf hblock m (mem_of_mem_firsts hm)) (hwf hblock)
      (firsts_firsts _) rfl
  simp only [unionOf, List.flatMap_append, List.flatMap_cons, List.append_assoc] at hmembers ⊢
  rw [hmembers, firsts_append_congr (hwf hbefore) (hwf hbefore) rfl hafter]

theorem same_unionOf_perm {ss ts : List Shape} (hss : ∀ s ∈ ss, s.WellFormed) (h : ss.Perm ts) :
    (unionOf ss).same (unionOf ts) = true := by
  have hts : ∀ t ∈ ts, t.WellFormed := fun t ht => hss t (h.mem_iff.2 ht)
  refine same_unionOf hss hts (fun s hs => ?_) fun t ht => ?_
  · exact ⟨s, h.mem_iff.1 hs, same_refl (hss s hs)⟩
  · exact ⟨t, h.mem_iff.2 ht, same_refl (hts t ht)⟩

/-- A union has one member for each class of equal shapes that went in, the first of them, in the
order in which these came. It does not matter whether neighbours were a union before, the order
matters only to the order, and the members make up the same union again. What any operation makes of
well-formed shapes is well-formed, and so is whatever a node denotes. -/
theorem unionOf_normalizes :
    (∀ ss : List Shape, (∀ s ∈ ss, s.WellFormed) →
      ∃ ms, unionOf ss = .union ms ∧ (union ms).WellFormed ∧
        (∀ s ∈ ss.flatMap alternatives, ∃! m, m ∈ ms ∧ m.same s = true) ∧
        ms.Sublist (ss.flatMap alternatives) ∧
        (∀ before s after, ss.flatMap alternatives = before ++ s :: after →
          (∀ t ∈ before, t.same s = false) →
          ∃ kept rest, ms = kept ++ s :: rest ∧ kept.Sublist before ∧ rest.Sublist after) ∧
        (∀ before block after, ss = before ++ block ++ after →
          unionOf (before ++ unionOf block :: after) = .union ms) ∧
        (∀ ts, ss.Perm ts → (union ms).same (unionOf ts) = true) ∧
        unionOf ms = .union ms) ∧
    (∀ s t : Shape, s.WellFormed → t.WellFormed → (s.join t).WellFormed) ∧
    (∀ ss : List Shape, (∀ s ∈ ss, s.WellFormed) →
      (joinAll ss).WellFormed ∧ (joinPairs ss).WellFormed) ∧
    (∀ s : Shape, s.WellFormed → s.strip.present.WellFormed ∧ s.optionalOf.WellFormed) ∧
    ∀ (node : Json.Value) (s : Shape), ofNode? node = .ok s → s.WellFormed := by
  refine ⟨fun ss hss => ?_, fun s t => wellFormed_join, ?_, ?_, ?_⟩
  · have hwf : ∀ m ∈ ss.flatMap alternatives, m.WellFormed :=
      fun m hm => wellFormed_of_mem_flatMap_alternatives hss hm
    refine ⟨firsts (ss.flatMap alternatives), rfl, wellFormed_unionOf hss, ?_, ?_, ?_, ?_, ?_, ?_⟩
    · exact fun s hs => existsUnique_same_mem_firsts hwf hs
    · exact firsts_sublist _
    · intro before s after hsplit hnew
      obtain ⟨rest, hrest, hsub⟩ := firsts_of_new hnew after
      exact ⟨firsts before, rest, hsplit ▸ hrest, firsts_sublist before, hsub⟩
    · rintro before block after rfl
      exact unionOf_block hss
    · exact fun ts h => same_unionOf_perm hss h
    · exact unionOf_members (wellFormed_unionOf hss)
  · exact fun ss hss => ⟨wellFormed_joinAll hss, wellFormed_joinPairs hss⟩
  · exact fun s hs => ⟨wellFormed_strip hs, wellFormed_optionalOf hs⟩
  · exact fun node s => wellFormed_of_ofNode? node

/-- A union that goes in between two shapes, one of which is a member of it. -/
theorem unionOf_normalizes_nested :
    let u : Shape := .union [.scalar .null, .array .unknown]
    let ss : List Shape := [.scalar .bool, u, .scalar .null]
    let t : Shape := .union [.optional (.scalar .null), .scalar .null]
    ((∀ s ∈ ss, s.WellFormed) ∧ t.WellFormed ∧ ofNode? t.toNode = .ok t) ∧ ∃ ms, unionOf ss = .union ms ∧
      ms = [.scalar .bool, .scalar .null, .array .unknown] ∧ (union ms).WellFormed ∧
      (∃! m, m ∈ ms ∧ m.same (.scalar .null) = true) ∧
      unionOf [.scalar .bool, unionOf [u, .scalar .null]] = .union ms ∧
      (union ms).same (unionOf ss.reverse) = true ∧ unionOf ms = .union ms ∧
      (u.join t).WellFormed ∧ (joinPairs ss).WellFormed ∧ t.strip.present.WellFormed := by
  intro u ss t
  have hu : u.WellFormed := by
    simp [u, wellFormed_union_iff, wellFormed_array_iff, isUnion, same, WellFormed.scalar,
      WellFormed.unknown]
  have hss : ∀ s ∈ ss, s.WellFormed := by simp [ss, hu, WellFormed.scalar]
  obtain ⟨hunion, hjoin, hmany, hstrip, hnode⟩ := unionOf_normalizes
  have hread : ofNode? t.toNode = .ok t := rfl
  have ht : t.WellFormed := hnode t.toNode t hread
  obtain ⟨ms, hms, hwf, hone, -, -, hblock, hperm, hagain⟩ := hunion ss hss
  have hmembers : ms = [.scalar .bool, .scalar .null, .array .unknown] := by
    have h := hms
    simp [unionOf, ss, u, alternatives, firsts, same] at h
    exact h.symm
  refine ⟨⟨hss, ht, hread⟩, ms, hms, hmembers, hwf, ?_, ?_, ?_, hagain, ?_, (hmany ss hss).2, ?_⟩
  · exact hone (.scalar .null) (by simp [ss, alternatives])
  · exact hblock [.scalar .bool] [u, .scalar .null] [] rfl
  · exact hperm ss.reverse (List.reverse_perm ss).symm
  · exact hjoin u t hu ht
  · exact (hstrip t ht).1

end JsonShape.Shape
