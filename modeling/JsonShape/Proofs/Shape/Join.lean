import JsonShape.Proofs.Shape.Absence
import JsonShape.Shape.Join
/-!
# JsonShape.Proofs.Shape.Join

What joining does, said once for all proofs about it.

* `Shape.get?_joinFields`: the joined fields, key by key.
* `Shape.fits_ind`, `Shape.join_ind`: induction over the pairs of shapes that joining compares.
* `Shape.wellFormed_join`: a join of well-formed shapes is well-formed.
* `Shape.mayBeAbsent_join`: a join may be absent exactly if one side may.
* `Shape.foldl_join_closed`, `Shape.joinPairs_closed`: a class of shapes that joining two does not
  leave is not left by joining many.
-/

namespace JsonShape.Shape

/-! ## Fields -/

/-- The fields of two objects joined. -/
def joinFields (fs gs : List (Text × Shape)) : List (Text × Shape) :=
  joinLeft fs gs ++ onlyRight fs gs

/-- What stands under a key of a joined object, from what stands under it on both sides. -/
def joinField : Option Shape → Option Shape → Option Shape
  | some s, some t => some (s.join t)
  | some s, none => some s.optionalOf
  | none, some t => some t.optionalOf
  | none, none => none

/-- A shape of the left side joined with what stands under its key on the right side. -/
def joinUnder (gs : List (Text × Shape)) (key : Text) (s : Shape) : Shape :=
  match Entries.get? key gs with
  | some t => s.join t
  | none => s.optionalOf

theorem joinLeft_eq_map (fs gs : List (Text × Shape)) :
    joinLeft fs gs = fs.map fun f => (f.1, joinUnder gs f.1 f.2) := by
  induction fs with
  | nil => rfl
  | cons f fs ih =>
    rw [joinLeft, ih]
    rfl

theorem get?_joinFields (fs gs : List (Text × Shape)) (key : Text) :
    Entries.get? key (joinFields fs gs) = joinField (Entries.get? key fs) (Entries.get? key gs) := by
  rw [joinFields, Entries.get?_append, joinLeft_eq_map, Entries.get?_mapValues, onlyRight,
    Entries.get?_mapValues fun _ => optionalOf,
    Entries.get?_filterKeys fun k => !Entries.contains fs k]
  cases hf : Entries.get? key fs with
  | some s => cases hg : Entries.get? key gs <;> simp [joinUnder, hg, joinField]
  | none => cases Entries.get? key gs <;> simp [Entries.contains, hf, joinField]

/-- Where a joined field comes from. -/
theorem get?_joinFields_cases {fs gs : List (Text × Shape)} {key : Text} {u : Shape}
    (h : Entries.get? key (joinFields fs gs) = some u) :
    (∃ s t, Entries.get? key fs = some s ∧ Entries.get? key gs = some t ∧ u = s.join t) ∨
      (∃ s, Entries.get? key fs = some s ∧ Entries.get? key gs = none ∧ u = s.optionalOf) ∨
        ∃ t, Entries.get? key fs = none ∧ Entries.get? key gs = some t ∧ u = t.optionalOf := by
  rw [get?_joinFields] at h
  cases hf : Entries.get? key fs <;> cases hg : Entries.get? key gs <;> rw [hf, hg] at h <;> cases h
  · exact .inr (.inr ⟨_, rfl, rfl, rfl⟩)
  · exact .inr (.inl ⟨_, rfl, rfl, rfl⟩)
  · exact .inl ⟨_, _, rfl, rfl, rfl⟩

theorem keys_joinFields (fs gs : List (Text × Shape)) :
    Entries.keys (joinFields fs gs) =
      Entries.keys fs ++ (Entries.keys gs).filter fun k => !Entries.contains fs k := by
  rw [joinFields, Entries.keys_append, joinLeft_eq_map, Entries.keys_mapValues, onlyRight,
    Entries.keys_mapValues fun _ => optionalOf,
    Entries.keys_filterKeys fun k => !Entries.contains fs k]

theorem distinct_joinFields {fs gs : List (Text × Shape)} (hf : Entries.Distinct fs)
    (hg : Entries.Distinct gs) : Entries.Distinct (joinFields fs gs) := by
  rw [Entries.Distinct, keys_joinFields, List.nodup_append]
  refine ⟨hf, hg.sublist List.filter_sublist, ?_⟩
  intro k hk l hl
  rintro rfl
  have := (List.mem_filter.1 hl).2
  simp [Entries.contains_eq_true_iff.2 hk] at this

/-! ## Cases of a join -/

theorem unknown_join (t : Shape) : join .unknown t = t := rfl

theorem join_unknown (s : Shape) : join s .unknown = s := by
  cases s <;> rfl

theorem scalar_join_self (k : Scalar) : join (.scalar k) (.scalar k) = .scalar k := by
  simp [join]

theorem object_join (fs gs : List (Text × Shape)) :
    join (.object fs) (.object gs) = .object (joinFields fs gs) := rfl

/-- Whether two shapes are joined part by part. -/
def fits : Shape → Shape → Bool
  | .unknown, _ => true
  | _, .unknown => true
  | .scalar k, .scalar l => k = l
  | .optional _, .optional _ => true
  | .array _, .array _ => true
  | .object _, .object _ => true
  | _, _ => false

theorem join_of_not_fits {s t : Shape} (h : s.fits t = false) : s.join t = unionOf [s, t] := by
  cases s <;> cases t <;> simp_all [fits, join]

theorem fits_comm (s t : Shape) : s.fits t = t.fits s := by
  cases s <;> cases t <;> simp [fits, eq_comm]

/-- Induction over the pairs of parts that a join meets. -/
@[elab_as_elim]
theorem fits_ind {motive : Shape → Shape → Prop} (unknown_left : ∀ t, motive .unknown t)
    (unknown_right : ∀ s, motive s .unknown) (scalar : ∀ k, motive (.scalar k) (.scalar k))
    (optional : ∀ s t, motive s t → motive (.optional s) (.optional t))
    (array : ∀ s t, motive s t → motive (.array s) (.array t))
    (object : ∀ fs gs, (∀ f ∈ fs, ∀ t, Entries.get? f.1 gs = some t → motive f.2 t) →
      motive (.object fs) (.object gs))
    (apart : ∀ s t, s.fits t = false → motive s t) (s t : Shape) : motive s t := by
  induction s generalizing t with
  | unknown => exact unknown_left t
  | scalar k =>
    cases t with
    | unknown => exact unknown_right _
    | scalar l =>
      by_cases h : k = l
      · subst h
        exact scalar k
      · exact apart _ _ (by simp [fits, h])
    | _ => exact apart _ _ rfl
  | optional s ih =>
    cases t with
    | unknown => exact unknown_right _
    | optional t => exact optional s t (ih t)
    | _ => exact apart _ _ rfl
  | array s ih =>
    cases t with
    | unknown => exact unknown_right _
    | array t => exact array s t (ih t)
    | _ => exact apart _ _ rfl
  | object fs ih =>
    cases t with
    | unknown => exact unknown_right _
    | object gs => exact object fs gs fun f hf t _ => ih f hf t
    | _ => exact apart _ _ rfl
  | union ms =>
    cases t with
    | unknown => exact unknown_right _
    | _ => exact apart _ _ rfl

/-- The same induction, where what is left over is made a union. -/
@[elab_as_elim]
theorem join_ind {motive : Shape → Shape → Prop} (unknown_left : ∀ t, motive .unknown t)
    (unknown_right : ∀ s, motive s .unknown) (scalar : ∀ k, motive (.scalar k) (.scalar k))
    (optional : ∀ s t, motive s t → motive (.optional s) (.optional t))
    (array : ∀ s t, motive s t → motive (.array s) (.array t))
    (object : ∀ fs gs, (∀ f ∈ fs, ∀ t, Entries.get? f.1 gs = some t → motive f.2 t) →
      motive (.object fs) (.object gs))
    (union : ∀ s t, s.join t = unionOf [s, t] → motive s t) (s t : Shape) : motive s t :=
  fits_ind unknown_left unknown_right scalar optional array object
    (fun s t h => union s t (join_of_not_fits h)) s t

theorem forall_mem_pair {P : Shape → Prop} {s t : Shape} (hs : P s) (ht : P t) :
    ∀ u ∈ [s, t], P u := by
  simp [hs, ht]

theorem same_eq_false_of_not_fits {s t : Shape} (hs : s.isUnion = false) (ht : t.isUnion = false)
    (h : s.fits t = false) : s.same t = false := by
  cases s <;> cases t <;> simp_all [fits, same, isUnion]

/-- What does not fit together is a union of two at least. -/
theorem two_le_length_of_not_fits {s t : Shape} (hs : s.WellFormed) (ht : t.WellFormed)
    (hs' : s.isUnion = true → 2 ≤ s.alternatives.length)
    (ht' : t.isUnion = true → 2 ≤ t.alternatives.length) (h : s.fits t = false) :
    2 ≤ (unionOf [s, t]).alternatives.length := by
  have hdiffer : ∃ m ∈ [s, t].flatMap alternatives, ∃ n ∈ [s, t].flatMap alternatives,
      m.same n = false := by
    simp only [List.flatMap_cons, List.flatMap_nil, List.append_nil, List.mem_append]
    cases hsu : s.isUnion with
    | true =>
      obtain ⟨m, hm, n, hn, hmn⟩ := exists_alternatives_not_same hs (hs' hsu)
      exact ⟨m, .inl hm, n, .inl hn, hmn⟩
    | false =>
      cases htu : t.isUnion with
      | true =>
        obtain ⟨m, hm, n, hn, hmn⟩ := exists_alternatives_not_same ht (ht' htu)
        exact ⟨m, .inr hm, n, .inr hn, hmn⟩
      | false =>
        have hself : ∀ u : Shape, u.isUnion = false → u ∈ u.alternatives := by
          intro u hu
          cases u with
          | union ms => cases hu
          | _ => exact List.mem_singleton.2 rfl
        exact ⟨s, .inl (hself s hsu), t, .inr (hself t htu), same_eq_false_of_not_fits hsu htu h⟩
  obtain ⟨m, hm, n, hn, hmn⟩ := hdiffer
  refine two_le_length_firsts (fun m hm => ?_) hm hn hmn
  exact wellFormed_of_mem_flatMap_alternatives (forall_mem_pair hs ht) hm

/-! ## What every join keeps -/

theorem wellFormed_join {s t : Shape} (hs : s.WellFormed) (ht : t.WellFormed) :
    (s.join t).WellFormed := by
  induction s, t using join_ind with
  | unknown_left t => exact ht
  | unknown_right s => rw [join_unknown]; exact hs
  | scalar k => rw [scalar_join_self]; exact hs
  | optional s t ih => exact .optional (ih (wellFormed_optional_iff.1 hs) (wellFormed_optional_iff.1 ht))
  | array s t ih => exact .array (ih (wellFormed_array_iff.1 hs) (wellFormed_array_iff.1 ht))
  | object fs gs ih =>
    obtain ⟨hfd, hfs⟩ := wellFormed_object_iff.1 hs
    obtain ⟨hgd, hgs⟩ := wellFormed_object_iff.1 ht
    have hd := distinct_joinFields hfd hgd
    refine .object hd fun e he => ?_
    have hget := Entries.get?_of_mem hd he
    rcases get?_joinFields_cases hget with ⟨x, y, hf, hg, hu⟩ | ⟨x, hf, -, hu⟩ | ⟨y, -, hg, hu⟩
    · have hmem := Entries.mem_of_get?_eq_some hf
      exact hu ▸ ih _ hmem y hg (hfs _ hmem) (hgs _ (Entries.mem_of_get?_eq_some hg))
    · exact hu ▸ wellFormed_optionalOf (hfs _ (Entries.mem_of_get?_eq_some hf))
    · exact hu ▸ wellFormed_optionalOf (hgs _ (Entries.mem_of_get?_eq_some hg))
  | union s t h => rw [h]; exact wellFormed_unionOf (forall_mem_pair hs ht)

theorem respected_isOptional : Respected fun s => s.isOptional = true := by
  intro s t _ h ht
  exact (isOptional_eq_of_same h).trans ht

theorem mayBeAbsent_unionOf {ss : List Shape} (hss : ∀ s ∈ ss, s.WellFormed) :
    (unionOf ss).mayBeAbsent = ss.any mayBeAbsent := by
  rw [Bool.eq_iff_iff, mayBeAbsent_eq_any_alternatives, List.any_eq_true,
    exists_mem_unionOf_iff respected_isOptional hss]
  simp [mayBeAbsent_eq_any_alternatives]

theorem mayBeAbsent_join {s t : Shape} (hs : s.WellFormed) (ht : t.WellFormed) :
    (s.join t).mayBeAbsent = (s.mayBeAbsent || t.mayBeAbsent) := by
  induction s, t using join_ind with
  | unknown_left t => rfl
  | unknown_right s => rw [join_unknown]; simp [mayBeAbsent]
  | scalar k => rw [scalar_join_self]; rfl
  | optional s t _ => rfl
  | array s t _ => rfl
  | object fs gs _ => rfl
  | union s t h =>
    rw [h, mayBeAbsent_unionOf (forall_mem_pair hs ht)]
    simp

/-! ## Joining many shapes -/

section Closed

variable {P : Shape → Prop} (hP : ∀ {s t : Shape}, P s → P t → P (s.join t)) {ss : List Shape}

include hP

theorem foldl_join_closed (hss : ∀ s ∈ ss, P s) {t : Shape} (ht : P t) : P (ss.foldl join t) := by
  induction ss generalizing t with
  | nil => exact ht
  | cons s ss ih =>
    obtain ⟨hs, hss⟩ := List.forall_mem_cons.1 hss
    exact ih hss (hP ht hs)

theorem joinAll_closed (hne : ss ≠ []) (hss : ∀ s ∈ ss, P s) : P (joinAll ss) := by
  cases ss with
  | nil => exact absurd rfl hne
  | cons s ss =>
    obtain ⟨hs, hss⟩ := List.forall_mem_cons.1 hss
    exact foldl_join_closed hP hss hs

theorem joinRound_closed (hss : ∀ s ∈ ss, P s) : ∀ s ∈ joinRound ss, P s := by
  fun_induction joinRound ss with
  | case1 s t rest ih =>
    obtain ⟨hs, hss⟩ := List.forall_mem_cons.1 hss
    obtain ⟨ht, hss⟩ := List.forall_mem_cons.1 hss
    exact List.forall_mem_cons.2 ⟨hP hs ht, ih hss⟩
  | case2 ss => exact hss

theorem joinPairs_closed (hne : ss ≠ []) (hss : ∀ s ∈ ss, P s) : P (joinPairs ss) := by
  fun_induction joinPairs ss with
  | case1 => exact absurd rfl hne
  | case2 s => exact hss s List.mem_cons_self
  | case3 s t rest ih => exact ih (List.cons_ne_nil _ _) (joinRound_closed hP hss)

end Closed

theorem wellFormed_joinAll {ss : List Shape} (hss : ∀ s ∈ ss, s.WellFormed) :
    (joinAll ss).WellFormed :=
  foldl_join_closed wellFormed_join hss .unknown

theorem wellFormed_joinPairs {ss : List Shape} (hss : ∀ s ∈ ss, s.WellFormed) :
    (joinPairs ss).WellFormed := by
  cases ss with
  | nil => rw [joinPairs]; exact .unknown
  | cons s ss => exact joinPairs_closed wellFormed_join (List.cons_ne_nil s ss) hss

end JsonShape.Shape
