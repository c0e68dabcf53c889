import JsonShape.Proofs.Shape.Congruence
import JsonShape.Proofs.Shape.Leaves
/-!
# JsonShape.Proofs.Shape.Strip

Stripping a shape of its optional marks, round by round. A round takes the mark off an optional shape,
or off the members of a union, which may bring members of members to the surface.

* `Shape.round?`: one round, as long as there is a mark to take off.
* `Shape.Rounds`: all rounds, counted.
* `Shape.Rounds.same`: equal shapes are stripped in step.
* `Shape.strip_flattens`: what stripping leaves.
-/

namespace JsonShape.Shape

/-! ## One round -/

/-- The shape after a round of stripping, if there is a mark to take off. -/
def round? : Shape → Option Shape
  | .optional s => some s
  | .union ms => if ms.any isOptional then some (peel ms) else none
  | _ => none

theorem round?_eq_none_iff {s : Shape} : s.round? = none ↔ s.mayBeAbsent = false := by
  cases s <;> simp [round?, mayBeAbsent]

/-- A round takes a mark off an optional shape or off the members of a union. -/
theorem round?_cases {s t : Shape} (h : s.round? = some t) :
    s = .optional t ∨ ∃ ms, s = .union ms ∧ ms.any isOptional = true ∧ t = peel ms := by
  cases s with
  | optional s =>
    cases h
    exact .inl rfl
  | union ms =>
    by_cases hany : ms.any isOptional = true
    · simp only [round?, hany, if_true, Option.some.injEq] at h
      exact .inr ⟨ms, rfl, hany, h.symm⟩
    · simp [round?, hany] at h
  | _ => cases h

theorem strip_of_round? {s t : Shape} (h : s.round? = some t) :
    s.strip = ⟨true, t.strip.present⟩ := by
  rcases round?_cases h with rfl | ⟨ms, rfl, hany, rfl⟩
  · rw [strip]
  · rw [strip]
    simp [hany]

theorem strip_of_not_mayBeAbsent {s : Shape} (h : s.mayBeAbsent = false) :
    s.strip = ⟨false, s⟩ := by
  cases s with
  | optional s => cases h
  | union ms =>
    rw [strip]
    simp_all [mayBeAbsent]
  | _ => rw [strip] <;> simp

theorem size_lt_of_round? {s t : Shape} (h : s.round? = some t) : t.size < s.size := by
  rcases round?_cases h with rfl | ⟨ms, rfl, hany, rfl⟩
  · simp [size]
  · exact size_peel_lt hany

theorem wellFormed_of_round? {s t : Shape} (hs : s.WellFormed) (h : s.round? = some t) :
    t.WellFormed := by
  rcases round?_cases h with rfl | ⟨ms, rfl, -, rfl⟩
  · exact wellFormed_optional_iff.1 hs
  · exact wellFormed_peel hs

/-! ## All rounds -/

/-- After `n` rounds of stripping `s` there is no mark left to take off `t`. -/
inductive Rounds : Nat → Shape → Shape → Prop where
  | done {s : Shape} : s.round? = none → Rounds 0 s s
  | more {n : Nat} {s t u : Shape} : s.round? = some t → Rounds n t u → Rounds (n + 1) s u

theorem Rounds.strip_present {n : Nat} {s t : Shape} (h : Rounds n s t) : s.strip.present = t := by
  induction h with
  | done h => rw [strip_of_not_mayBeAbsent (round?_eq_none_iff.1 h)]
  | more h _ ih => rw [strip_of_round? h, ih]

/-- Each round makes the shape smaller. -/
theorem Rounds.lt_size {n : Nat} {s t : Shape} (h : Rounds n s t) : n < s.size := by
  induction h with
  | done _ => exact size_pos _
  | more h _ ih =>
    have := size_lt_of_round? h
    omega

theorem exists_rounds (s : Shape) : ∃ n, Rounds n s s.strip.present := by
  induction hn : s.size using Nat.strongRecOn generalizing s with
  | ind n ih =>
    cases hround : s.round? with
    | none =>
      refine ⟨0, ?_⟩
      rw [strip_of_not_mayBeAbsent (round?_eq_none_iff.1 hround)]
      exact .done hround
    | some t =>
      have hlt := size_lt_of_round? hround
      obtain ⟨k, hk⟩ := ih t.size (by omega) t rfl
      refine ⟨k + 1, ?_⟩
      rw [strip_of_round? hround]
      exact .more hround hk

/-! ## Equal shapes -/

theorem mayBeAbsent_congr {s t : Shape} (hs : s.WellFormed) (ht : t.WellFormed)
    (h : s.same t = true) : s.mayBeAbsent = t.mayBeAbsent := by
  rw [Bool.eq_iff_iff]
  exact ⟨mayBeAbsent_of_same ht (same_symm hs h), mayBeAbsent_of_same hs h⟩

theorem same_unwrap {s t : Shape} (h : s.same t = true) : s.unwrap.same t.unwrap = true := by
  cases s <;> cases t <;> simp_all [same, unwrap]

theorem same_collapse {ms ns : List Shape} (h : (union ms).same (union ns) = true) :
    (union ms).collapse.same (union ns).collapse = true := by
  obtain ⟨hlen, hmn⟩ := same_union_iff_length.1 h
  match ms, ns, hlen with
  | [], [], _ => exact h
  | [m], [n], _ =>
    obtain ⟨k, hk, hmk⟩ := hmn m (by simp)
    obtain rfl := List.mem_singleton.1 hk
    exact hmk
  | _ :: _ :: _, _ :: _ :: _, _ => exact h

theorem same_peel {ms ns : List Shape} (hms : (union ms).WellFormed) (hns : (union ns).WellFormed)
    (h : (union ms).same (union ns) = true) : (peel ms).same (peel ns) = true := by
  have hcovered : ∀ {ms ns : List Shape}, (union ms).same (union ns) = true →
      Covered (ms.map unwrap) (ns.map unwrap) := by
    intro ms ns h s hs
    obtain ⟨m, hm, rfl⟩ := List.mem_map.1 hs
    obtain ⟨n, hn, hmn⟩ := (same_union_iff_length.1 h).2 m hm
    exact ⟨n.unwrap, List.mem_map_of_mem hn, same_unwrap hmn⟩
  exact same_collapse (same_unionOf (wellFormed_map_unwrap hms) (wellFormed_map_unwrap hns)
    (hcovered h) (hcovered (same_symm hms h)))

/-- If one of two equal shapes takes a round, so does the other, and they are equal after it. -/
theorem exists_round_of_same {s s' t : Shape} (hs : s.WellFormed) (ht : t.WellFormed)
    (h : s.same t = true) (hround : s.round? = some s') :
    ∃ t', t.round? = some t' ∧ s'.same t' = true := by
  rcases round?_cases hround with rfl | ⟨ms, rfl, hany, rfl⟩
  · obtain ⟨t', rfl, hst⟩ := same_inv h
    exact ⟨t', rfl, hst⟩
  · obtain ⟨ns, rfl, -, hmn⟩ := same_inv h
    have hany' : ns.any isOptional = true := by
      obtain ⟨m, hm, hoptional⟩ := List.any_eq_true.1 hany
      obtain ⟨n, hn, hsame⟩ := hmn m hm
      exact List.any_eq_true.2 ⟨n, hn, (isOptional_eq_of_same hsame).symm.trans hoptional⟩
    exact ⟨peel ns, by simp [round?, hany'], same_peel hs ht h⟩

theorem Rounds.same {n : Nat} {s s' t : Shape} (hrounds : Rounds n s s') (hs : s.WellFormed)
    (ht : t.WellFormed) (h : s.same t = true) : ∃ t', Rounds n t t' ∧ s'.same t' = true := by
  induction hrounds generalizing t with
  | @done s hdone =>
    rw [round?_eq_none_iff, mayBeAbsent_congr hs ht h] at hdone
    exact ⟨t, .done (round?_eq_none_iff.2 hdone), h⟩
  | more hround _ ih =>
    obtain ⟨t₁, ht₁, hsame⟩ := exists_round_of_same hs ht h hround
    obtain ⟨t', hrounds, hsame⟩ :=
      ih (wellFormed_of_round? hs hround) (wellFormed_of_round? ht ht₁) hsame
    exact ⟨t', .more ht₁ hrounds, hsame⟩

theorem same_strip {s t : Shape} (hs : s.WellFormed) (ht : t.WellFormed) (h : s.same t = true) :
    s.strip.optional = t.strip.optional ∧ s.strip.present.same t.strip.present = true := by
  refine ⟨?_, ?_⟩
  · rw [strip_optional, strip_optional, mayBeAbsent_congr hs ht h]
  · obtain ⟨n, hrounds⟩ := exists_rounds s
    obtain ⟨t', hrounds', hsame⟩ := hrounds.same hs ht h
    rw [hrounds'.strip_present]
    exact hsame

/-! ## A shape and itself, marked optional -/

theorem strip_of_plural_members {ms : List Shape} (hwf : (union ms).WellFormed)
    (hany : ms.any isOptional = true) (hms : ∀ m ∈ ms, m.Plural) :
    (union ms).strip = ⟨true, (union (firsts (union ms).leaves)).collapse⟩ := by
  have hne : ms ≠ [] := by
    rintro rfl
    simp at hany
  have hround : (union ms).round? = some (peel ms) := by simp [round?, hany]
  rw [strip_of_round? hround, strip_present_of_plural (keptByStrip_plural.peel hne hms)
    (wellFormed_peel hwf), firsts_leaves_peel hwf]

/-- A shape joined with itself, marked optional, is a union with the mark on a member. Without the
mark that member adds no leaves. -/
theorem strip_unionOf_optional {s : Shape} (hs : s.WellFormed) (hplural : s.Plural) :
    (unionOf [.optional s, s]).strip = (optional s).strip := by
  have hpair := forall_mem_pair (WellFormed.optional hs) hs
  have hleaves : firsts (unionOf [.optional s, s]).leaves = firsts s.leaves := by
    rw [firsts_leaves_unionOf hpair]
    simpa [leaves] using firsts_append_self fun l hl => wellFormed_of_mem_leaves hs hl
  have hunion : unionOf [.optional s, s] = union (firsts (.optional s :: s.alternatives)) := by
    simp [unionOf, alternatives]
  have hany : (firsts (.optional s :: s.alternatives)).any isOptional = true := by
    simp [firsts, isOptional]
  have hmembers : ∀ m ∈ firsts (.optional s :: s.alternatives), m.Plural := by
    intro m hm
    rcases List.mem_cons.1 (mem_of_mem_firsts hm) with rfl | hm
    · exact .optional hplural
    · exact (plural_alternatives hplural).2 m hm
  rw [hunion] at hleaves ⊢
  rw [strip_of_plural_members (hunion ▸ wellFormed_unionOf hpair) hany hmembers, hleaves, strip,
    strip_present_of_plural hplural hs]

/-- Stripping comes to an end, with a round less than the shape has nodes. It tells whether there was
a mark, and leaves the leaves, of equal ones the first, with no mark to take off. Equal shapes are
told apart neither by the mark nor by what is left, and a shape that is joined with itself marked
optional is stripped like the marked one. -/
theorem strip_flattens :
    (∀ s : Shape, s.WellFormed →
      (∃ n < s.size, Rounds n s s.strip.present) ∧
      s.strip.optional = s.mayBeAbsent ∧
      s.strip.present.mayBeAbsent = false ∧
      s.strip.present.leaves = firsts s.leaves ∧
      s.strip.present.strip = ⟨false, s.strip.present⟩) ∧
    (∀ s t : Shape, s.WellFormed → t.WellFormed → s.same t = true →
      s.strip.optional = t.strip.optional ∧ s.strip.present.same t.strip.present = true) ∧
    ∀ s : Shape, s.WellFormed → s.Plural →
      (unionOf [.optional s, s]).strip = (optional s).strip := by
  refine ⟨fun s hs => ?_, fun s t => same_strip, fun s => strip_unionOf_optional⟩
  have habsent := mayBeAbsent_strip_present s
  obtain ⟨n, hrounds⟩ := exists_rounds s
  refine ⟨⟨n, hrounds.lt_size, hrounds⟩, strip_optional s, habsent, ?_, ?_⟩
  · rw [leaves_of_not_mayBeAbsent (wellFormed_strip hs) habsent, alternatives_strip_present hs]
  · exact strip_of_not_mayBeAbsent habsent

/-- A union with a mark behind a mark, and the same with its members in another order. -/
theorem strip_flattens_nested :
    let inner : List Shape := [.optional (.scalar .number), .scalar .null]
    let s : Shape := .union [.optional (.union inner), .scalar .number]
    let t : Shape := .union [.scalar .number, .optional (.union inner.reverse)]
    (s.WellFormed ∧ t.WellFormed ∧ s.same t = true ∧ s.Plural) ∧
      (∃ n < s.size, Rounds n s s.strip.present) ∧ s.strip.optional = true ∧
      s.strip.present.leaves = [.scalar .number, .scalar .null] ∧
      s.strip.present.strip = ⟨false, s.strip.present⟩ ∧
      s.strip.present.same t.strip.present = true ∧
      (unionOf [.optional s, s]).strip = (optional s).strip := by
  intro inner s t
  have hs : s.WellFormed := by
    simp [s, inner, wellFormed_union_iff, wellFormed_optional_iff, isUnion, same, WellFormed.scalar]
  have ht : t.WellFormed := by
    simp [t, inner, wellFormed_union_iff, wellFormed_optional_iff, isUnion, same, WellFormed.scalar]
  have hsame : s.same t = true := by
    simp [s, t, inner, same, sameMembers]
  have hinner : (union inner).Plural := by
    refine .union (by simp [inner]) ?_
    simp [inner, Plural.optional (Plural.scalar _), Plural.scalar]
  have hplural : s.Plural := .union (by simp) (by simp [hinner.optional, Plural.scalar])
  have hleaves : firsts s.leaves = [.scalar .number, .scalar .null] := by
    simp [s, inner, leaves, memberLeaves, firsts, same]
  obtain ⟨hstrip, hcongr, htwice⟩ := strip_flattens
  obtain ⟨hrounds, hflag, -, hpresent, hagain⟩ := hstrip s hs
  exact ⟨⟨hs, ht, hsame, hplural⟩, hrounds, hflag, hpresent.trans hleaves, hagain,
    (hcongr s t hs ht hsame).2, htwice s hs hplural⟩

end JsonShape.Shape
