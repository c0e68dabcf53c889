import JsonShape.Proofs.Shape.Join
import JsonShape.Proofs.Shape.Node
/-!
# JsonShape.Proofs.Shape.Congruence

Joining does not see what equality looks past, nor which side a shape stands on.

* `Shape.same_unionOf`: unions made of equal shapes are equal.
* `Shape.same_join_comm`: the two orders of a join give equal shapes.
* `Shape.same_join_congr`: joins of equal shapes are equal.
-/

namespace JsonShape.Shape

/-! ## Unions -/

theorem exists_alternative_of_same {s t : Shape} (h : s.same t = true) {m : Shape}
    (hm : m ∈ s.alternatives) : ∃ n ∈ t.alternatives, m.same n = true := by
  cases s with
  | union ms =>
    obtain ⟨ns, rfl, -, hmn⟩ := same_inv h
    exact hmn m hm
  | _ =>
    cases t with
    | union ns => simp [same] at h
    | _ => exact ⟨_, List.mem_singleton.2 rfl, List.mem_singleton.1 hm ▸ h⟩

/-- Whether every shape of a list equals one of another list. -/
def Covered (ss ts : List Shape) : Prop := ∀ s ∈ ss, ∃ t ∈ ts, s.same t = true

theorem covered_alternatives {ss ts : List Shape} (h : Covered ss ts) :
    Covered (ss.flatMap alternatives) (ts.flatMap alternatives) := by
  intro m hm
  obtain ⟨s, hs, hm⟩ := List.mem_flatMap.1 hm
  obtain ⟨t, ht, hst⟩ := h s hs
  obtain ⟨n, hn, hmn⟩ := exists_alternative_of_same hst hm
  exact ⟨n, List.mem_flatMap.2 ⟨t, ht, hn⟩, hmn⟩

theorem covered_firsts {ss ts : List Shape} (hts : ∀ t ∈ ts, t.WellFormed) (h : Covered ss ts) :
    Covered (firsts ss) (firsts ts) := by
  intro s hs
  obtain ⟨t, ht, hst⟩ := h s (mem_of_mem_firsts hs)
  obtain ⟨u, hu, hut⟩ := exists_same_mem_firsts (hts t ht) ht
  exact ⟨u, hu, same_trans hst (same_symm (hts u (mem_of_mem_firsts hu)) hut)⟩

theorem same_unionOf {ss ts : List Shape} (hss : ∀ s ∈ ss, s.WellFormed)
    (hts : ∀ t ∈ ts, t.WellFormed) (hst : Covered ss ts) (hts' : Covered ts ss) :
    (unionOf ss).same (unionOf ts) = true := by
  have hswf := fun m hm => wellFormed_of_mem_flatMap_alternatives hss (m := m) hm
  have htwf := fun m hm => wellFormed_of_mem_flatMap_alternatives hts (m := m) hm
  refine (same_union_iff (wellFormed_unionOf hss) (wellFormed_unionOf hts)).2
    ⟨covered_firsts htwf (covered_alternatives hst), fun n hn => ?_⟩
  obtain ⟨m, hm, hnm⟩ := covered_firsts hswf (covered_alternatives hts') n hn
  exact ⟨m, hm, same_symm (htwf n (mem_of_mem_firsts hn)) hnm⟩

/-! ## Joins -/

theorem same_optionalOf {s t : Shape} (h : s.same t = true) :
    s.optionalOf.same t.optionalOf = true := by
  cases s <;> cases t <;> simp_all [same, optionalOf]

theorem same_join_comm {s t : Shape} (hs : s.WellFormed) (ht : t.WellFormed) :
    (s.join t).same (t.join s) = true := by
  induction s, t using fits_ind with
  | unknown_left t => rw [join_unknown]; exact same_refl ht
  | unknown_right s => rw [join_unknown]; exact same_refl hs
  | scalar k => exact same_refl (wellFormed_join hs ht)
  | optional s t ih => exact ih (wellFormed_optional_iff.1 hs) (wellFormed_optional_iff.1 ht)
  | array s t ih => exact ih (wellFormed_array_iff.1 hs) (wellFormed_array_iff.1 ht)
  | object fs gs ih =>
    have hfs := (wellFormed_object_iff.1 hs).2
    have hgs := (wellFormed_object_iff.1 ht).2
    have hl := wellFormed_join hs ht
    have hr := wellFormed_join ht hs
    rw [object_join] at hl hr
    rw [object_join, object_join]
    refine (same_object_iff_get? hl hr).2 fun key => ?_
    rw [get?_joinFields, get?_joinFields]
    cases hf : Entries.get? key fs with
    | none =>
      cases hg : Entries.get? key gs with
      | none => exact .inl ⟨rfl, rfl⟩
      | some t =>
        have hwf := wellFormed_optionalOf (hgs _ (Entries.mem_of_get?_eq_some hg))
        exact .inr ⟨_, _, rfl, rfl, same_refl hwf⟩
    | some s =>
      have hmem := Entries.mem_of_get?_eq_some hf
      cases hg : Entries.get? key gs with
      | none => exact .inr ⟨_, _, rfl, rfl, same_refl (wellFormed_optionalOf (hfs _ hmem))⟩
      | some t =>
        have hwf := hgs _ (Entries.mem_of_get?_eq_some hg)
        exact .inr ⟨_, _, rfl, rfl, ih _ hmem t hg (hfs _ hmem) hwf⟩
  | apart s t h =>
    rw [join_of_not_fits h, join_of_not_fits (by rw [fits_comm]; exact h)]
    refine same_unionOf (forall_mem_pair hs ht) (forall_mem_pair ht hs) ?_ ?_
    · exact forall_mem_pair ⟨s, by simp, same_refl hs⟩ ⟨t, by simp, same_refl ht⟩
    · exact forall_mem_pair ⟨t, by simp, same_refl ht⟩ ⟨s, by simp, same_refl hs⟩

theorem fits_congr {s s' t t' : Shape} (hs : s.same s' = true) (ht : t.same t' = true) :
    s.fits t = s'.fits t' := by
  have hleft : ∀ {s s' : Shape}, s.same s' = true → ∀ t, s.fits t = s'.fits t := by
    intro s s' h t
    cases s <;> cases s' <;> simp_all [same] <;> cases t <;> rfl
  rw [hleft hs t, fits_comm, hleft ht s', fits_comm]

theorem same_join_congr {s s' t t' : Shape} (hs : s.WellFormed) (hs' : s'.WellFormed)
    (ht : t.WellFormed) (ht' : t'.WellFormed) (hss : s.same s' = true) (htt : t.same t' = true) :
    (s.join t).same (s'.join t') = true := by
  induction s, t using fits_ind generalizing s' t' with
  | unknown_left t => cases same_inv hss; exact htt
  | unknown_right s =>
    cases same_inv htt
    rw [join_unknown, join_unknown]
    exact hss
  | scalar k => cases same_inv hss; cases same_inv htt; exact same_refl (wellFormed_join hs ht)
  | optional s t ih =>
    obtain ⟨s', rfl, hss⟩ := same_inv hss
    obtain ⟨t', rfl, htt⟩ := same_inv htt
    rw [wellFormed_optional_iff] at hs hs' ht ht'
    exact ih hs hs' ht ht' hss htt
  | array s t ih =>
    obtain ⟨s', rfl, hss⟩ := same_inv hss
    obtain ⟨t', rfl, htt⟩ := same_inv htt
    rw [wellFormed_array_iff] at hs hs' ht ht'
    exact ih hs hs' ht ht' hss htt
  | object fs gs ih =>
    obtain ⟨fs', rfl, -⟩ := same_inv hss
    obtain ⟨gs', rfl, -⟩ := same_inv htt
    have hwf : ∀ {fs : List (Text × Shape)} {key : Text} {s : Shape}, (object fs).WellFormed →
        Entries.get? key fs = some s → s.WellFormed :=
      fun h hget => (wellFormed_object_iff.1 h).2 _ (Entries.mem_of_get?_eq_some hget)
    have hl := wellFormed_join hs ht
    have hr := wellFormed_join hs' ht'
    rw [object_join] at hl hr
    rw [object_join, object_join]
    refine (same_object_iff_get? hl hr).2 fun key => ?_
    rw [get?_joinFields, get?_joinFields]
    rcases (same_object_iff_get? hs hs').1 hss key with ⟨hf, hf'⟩ | ⟨u, u', hf, hf', huu⟩ <;>
      rcases (same_object_iff_get? ht ht').1 htt key with ⟨hg, hg'⟩ | ⟨v, v', hg, hg', hvv⟩ <;>
      rw [hf, hf', hg, hg']
    · exact .inl ⟨rfl, rfl⟩
    · exact .inr ⟨_, _, rfl, rfl, same_optionalOf hvv⟩
    · exact .inr ⟨_, _, rfl, rfl, same_optionalOf huu⟩
    · have hsame := ih _ (Entries.mem_of_get?_eq_some hf) v hg (hwf hs hf) (hwf hs' hf') (hwf ht hg)
        (hwf ht' hg') huu hvv
      exact .inr ⟨_, _, rfl, rfl, hsame⟩
  | apart s t h =>
    rw [join_of_not_fits h, join_of_not_fits (fits_congr hss htt ▸ h)]
    refine same_unionOf (forall_mem_pair hs ht) (forall_mem_pair hs' ht') ?_ ?_
    · exact forall_mem_pair ⟨s', by simp, hss⟩ ⟨t', by simp, htt⟩
    · exact forall_mem_pair ⟨s, by simp, same_symm hs hss⟩ ⟨t, by simp, same_symm ht htt⟩

/-- Joining is commutative and respects equality, for all that a file can hold too. Equality is that of
mappings for fields and that of sets for members, at every depth. -/
theorem join_comm_congr :
    (∀ s t : Shape, s.WellFormed → t.WellFormed → (s.join t).same (t.join s) = true) ∧
    (∀ s s' t t' : Shape, s.WellFormed → s'.WellFormed → t.WellFormed → t'.WellFormed →
      s.same s' = true → t.same t' = true → (s.join t).same (s'.join t') = true) ∧
    (∀ (node : Json.Value) (s : Shape), ofNode? node = .ok s → s.WellFormed) ∧
    (∀ fs gs : List (Text × Shape), (object fs).WellFormed → (object gs).WellFormed →
      ((object fs).same (object gs) = true ↔ ∀ key,
        (Entries.get? key fs = none ∧ Entries.get? key gs = none) ∨
          ∃ s t, Entries.get? key fs = some s ∧ Entries.get? key gs = some t ∧ s.same t = true)) ∧
    ∀ ms ns : List Shape, (union ms).WellFormed → (union ns).WellFormed →
      ((union ms).same (union ns) = true ↔
        (∀ m ∈ ms, ∃ n ∈ ns, m.same n = true) ∧ ∀ n ∈ ns, ∃ m ∈ ms, m.same n = true) := by
  refine ⟨fun s t => same_join_comm, fun s s' t t' => same_join_congr, ?_, ?_, ?_⟩
  · exact fun node s => wellFormed_of_ofNode? node
  · exact fun fs gs => same_object_iff_get?
  · exact fun ms ns => same_union_iff

/-- Objects with their fields and the members of a union in another order, joined with a union without
members and with nested optional marks. -/
theorem join_comm_congr_reordered :
    let u : Shape := .union [.scalar .null, .scalar .bool]
    let u' : Shape := .union [.scalar .bool, .scalar .null]
    let s : Shape := .object [("a", u), ("b", .union [])]
    let s' : Shape := .object [("b", .union []), ("a", u')]
    let t : Shape := .object [("c", .optional (.optional (.scalar .null))), ("a", .union [.scalar .number])]
    (s.WellFormed ∧ s'.WellFormed ∧ t.WellFormed ∧ s.same s' = true ∧ t.same t = true) ∧
      (s.join t).same (t.join s) = true ∧ (s.join t).same (s'.join t) = true := by
  intro u u' s s' t
  have hunion : ∀ ms : List Scalar, ms.Nodup → (union (ms.map .scalar)).WellFormed := by
    intro ms hms
    refine .union (by simp [isUnion]) ?_ (by simp [WellFormed.scalar])
    exact List.pairwise_map.2 (hms.imp fun h => by simpa [same] using h)
  have hu : u.WellFormed := hunion [.null, .bool] (by decide)
  have hu' : u'.WellFormed := hunion [.bool, .null] (by decide)
  have hnone : (union []).WellFormed := hunion [] (by decide)
  have hone : (union [.scalar .number]).WellFormed := hunion [.number] (by decide)
  have hs : s.WellFormed := .object (by simp +decide [Entries.Distinct, Entries.keys]) (by simp [hu, hnone])
  have hs' : s'.WellFormed := .object (by simp +decide [Entries.Distinct, Entries.keys]) (by simp [hu', hnone])
  have ht : t.WellFormed := by
    refine .object (by simp +decide [Entries.Distinct]) ?_
    simp [hone, wellFormed_optional_iff, WellFormed.scalar]
  have hss : s.same s' = true := by decide
  obtain ⟨hcomm, hcongr, -⟩ := join_comm_congr
  exact ⟨⟨hs, hs', ht, hss, same_refl ht⟩, hcomm s t hs ht,
    hcongr s s' t t hs hs' ht ht hss (same_refl ht)⟩

end JsonShape.Shape
