import JsonShape.Proofs.Entries
import JsonShape.Shape.Union
/-!
# JsonShape.Proofs.Shape.Same

Equality of shapes, which looks past the order of fields and members.

* `Shape.WellFormed`: no repeated keys, no union directly in a union, no two equal members, at any
  depth.
* `Shape.same_inv`: what an equal shape looks like.
* `Shape.same_refl`, `Shape.same_symm`, `Shape.same_trans`: equality is an equivalence of
  well-formed shapes.
-/

namespace JsonShape

/-! ## Matching the elements of two lists -/

section Matching

variable {α β : Type} {R : α → β → Prop}

/-- If every element has a partner and no two share one, each can be paired with one of its own. -/
theorem exists_pairing {as : List α} {bs : List β} (hR : ∀ a ∈ as, ∃ b ∈ bs, R a b)
    (hd : as.Pairwise fun a a' => ∀ b, R a b → ¬R a' b) :
    ∃ (ps : List (α × β)) (rest : List β), ps.map Prod.fst = as ∧
      (ps.map Prod.snd ++ rest).Perm bs ∧ ∀ p ∈ ps, R p.1 p.2 := by
  induction as generalizing bs with
  | nil => exact ⟨[], bs, rfl, .refl bs, by simp⟩
  | cons a as ih =>
    obtain ⟨ha, has⟩ := List.pairwise_cons.1 hd
    obtain ⟨b, hb, hab⟩ := hR a (by simp)
    obtain ⟨l, r, rfl⟩ := List.append_of_mem hb
    have hrest : ∀ a' ∈ as, ∃ b' ∈ l ++ r, R a' b' := by
      intro a' ha'
      obtain ⟨b', hb', h⟩ := hR a' (by simp [ha'])
      have hne : b' ≠ b := by
        rintro rfl
        exact ha a' ha' b' hab h
      refine ⟨b', ?_, h⟩
      simp only [List.mem_append, List.mem_cons] at hb' ⊢
      rcases hb' with hb' | hb' | hb'
      · exact .inl hb'
      · exact absurd hb' hne
      · exact .inr hb'
    obtain ⟨ps, rest, hfst, hperm, hps⟩ := ih hrest has
    refine ⟨(a, b) :: ps, rest, by simp [hfst], ?_, List.forall_mem_cons.2 ⟨hab, hps⟩⟩
    exact (hperm.cons b).trans List.perm_middle.symm

theorem length_le_of_matching {as : List α} {bs : List β} (hR : ∀ a ∈ as, ∃ b ∈ bs, R a b)
    (hd : as.Pairwise fun a a' => ∀ b, R a b → ¬R a' b) : as.length ≤ bs.length := by
  obtain ⟨ps, rest, rfl, hperm, -⟩ := exists_pairing hR hd
  have := hperm.length_eq
  simp only [List.length_append, List.length_map] at this ⊢
  omega

/-- With no more candidates than elements, no candidate is left over. -/
theorem exists_full_pairing {as : List α} {bs : List β} (hR : ∀ a ∈ as, ∃ b ∈ bs, R a b)
    (hd : as.Pairwise fun a a' => ∀ b, R a b → ¬R a' b) (hlen : bs.length ≤ as.length) :
    ∃ ps : List (α × β), ps.map Prod.fst = as ∧ (ps.map Prod.snd).Perm bs ∧
      ∀ p ∈ ps, R p.1 p.2 := by
  obtain ⟨ps, rest, rfl, hperm, hps⟩ := exists_pairing hR hd
  have hrest : rest = [] := by
    have := hperm.length_eq
    simp only [List.length_append, List.length_map] at this hlen
    exact List.eq_nil_of_length_eq_zero (by omega)
  subst hrest
  rw [List.append_nil] at hperm
  exact ⟨ps, rfl, hperm, hps⟩

theorem exists_of_matching {as : List α} {bs : List β} (hR : ∀ a ∈ as, ∃ b ∈ bs, R a b)
    (hd : as.Pairwise fun a a' => ∀ b, R a b → ¬R a' b) (hlen : bs.length ≤ as.length) {b : β}
    (hb : b ∈ bs) : ∃ a ∈ as, R a b := by
  obtain ⟨ps, rfl, hperm, hps⟩ := exists_full_pairing hR hd hlen
  obtain ⟨p, hp, rfl⟩ := List.mem_map.1 (hperm.mem_iff.2 hb)
  exact ⟨p.1, List.mem_map_of_mem hp, hps p hp⟩

end Matching

namespace Shape

/-! ## Unfolding equality -/

theorem sameFields_iff {fs gs : List (Text × Shape)} :
    sameFields fs gs = true ↔
      ∀ f ∈ fs, ∃ t, Entries.get? f.1 gs = some t ∧ f.2.same t = true := by
  induction fs with
  | nil => simp [sameFields]
  | cons f fs ih =>
    obtain ⟨k, s⟩ := f
    simp only [sameFields, Bool.and_eq_true, ih, List.forall_mem_cons]
    cases Entries.get? k gs <;> simp

theorem sameMembers_iff {ms ns : List Shape} :
    sameMembers ms ns = true ↔ ∀ m ∈ ms, ∃ n ∈ ns, m.same n = true := by
  induction ms with
  | nil => simp [sameMembers]
  | cons m ms ih => simp [sameMembers, ih]

theorem same_object_iff {fs gs : List (Text × Shape)} :
    (object fs).same (object gs) = true ↔
      fs.length = gs.length ∧ ∀ f ∈ fs, ∃ t, Entries.get? f.1 gs = some t ∧ f.2.same t = true := by
  simp [same, sameFields_iff]

theorem same_union_iff_length {ms ns : List Shape} :
    (union ms).same (union ns) = true ↔
      ms.length = ns.length ∧ ∀ m ∈ ms, ∃ n ∈ ns, m.same n = true := by
  simp [same, sameMembers_iff]

/-- What a shape must look like to equal `s`. -/
theorem same_inv {s t : Shape} : s.same t = true →
    match s with
    | .unknown => t = .unknown
    | .scalar k => t = .scalar k
    | .optional a => ∃ b, t = .optional b ∧ a.same b = true
    | .array a => ∃ b, t = .array b ∧ a.same b = true
    | .object fs => ∃ gs, t = .object gs ∧ fs.length = gs.length ∧
        ∀ f ∈ fs, ∃ u, Entries.get? f.1 gs = some u ∧ f.2.same u = true
    | .union ms => ∃ ns, t = .union ns ∧ ms.length = ns.length ∧
        ∀ m ∈ ms, ∃ n ∈ ns, m.same n = true := by
  intro h
  cases s with
  | unknown =>
    cases t with
    | unknown => rfl
    | _ => simp [same] at h
  | scalar k =>
    cases t with
    | scalar l =>
      simp only [same, decide_eq_true_eq] at h
      rw [h]
    | _ => simp [same] at h
  | optional a =>
    cases t with
    | optional b => exact ⟨b, rfl, h⟩
    | _ => simp [same] at h
  | array a =>
    cases t with
    | array b => exact ⟨b, rfl, h⟩
    | _ => simp [same] at h
  | object fs =>
    cases t with
    | object gs => exact ⟨gs, rfl, same_object_iff.1 h⟩
    | _ => simp [same] at h
  | union ms =>
    cases t with
    | union ns => exact ⟨ns, rfl, same_union_iff_length.1 h⟩
    | _ => simp [same] at h

theorem isOptional_eq_of_same {s t : Shape} (h : s.same t = true) :
    s.isOptional = t.isOptional := by
  cases s <;> cases t <;> simp_all [same, isOptional]

theorem isUnion_eq_of_same {s t : Shape} (h : s.same t = true) : s.isUnion = t.isUnion := by
  cases s <;> cases t <;> simp_all [same, isUnion]

/-! ## Well-formed shapes -/

inductive WellFormed : Shape → Prop where
  | unknown : WellFormed .unknown
  | scalar (k : Scalar) : WellFormed (.scalar k)
  | optional {s : Shape} : WellFormed s → WellFormed (.optional s)
  | array {s : Shape} : WellFormed s → WellFormed (.array s)
  | object {fs : List (Text × Shape)} :
      Entries.Distinct fs → (∀ f ∈ fs, WellFormed f.2) → WellFormed (.object fs)
  | union {ms : List Shape} :
      (∀ m ∈ ms, m.isUnion = false) → ms.Pairwise (fun m n => m.same n = false) →
      (∀ m ∈ ms, WellFormed m) → WellFormed (.union ms)

theorem wellFormed_optional_iff {s : Shape} : (optional s).WellFormed ↔ s.WellFormed :=
  ⟨fun h => by cases h; assumption, .optional⟩

theorem wellFormed_array_iff {s : Shape} : (array s).WellFormed ↔ s.WellFormed :=
  ⟨fun h => by cases h; assumption, .array⟩

theorem wellFormed_object_iff {fs : List (Text × Shape)} :
    (object fs).WellFormed ↔ Entries.Distinct fs ∧ ∀ f ∈ fs, f.2.WellFormed := by
  constructor
  · intro h
    cases h with
    | object hd hfs => exact ⟨hd, hfs⟩
  · rintro ⟨hd, hfs⟩
    exact .object hd hfs

theorem wellFormed_union_iff {ms : List Shape} :
    (union ms).WellFormed ↔
      (∀ m ∈ ms, m.isUnion = false) ∧ ms.Pairwise (fun m n => m.same n = false) ∧
        ∀ m ∈ ms, m.WellFormed := by
  constructor
  · intro h
    cases h with
    | union hu hd hms => exact ⟨hu, hd, hms⟩
  · rintro ⟨hu, hd, hms⟩
    exact .union hu hd hms

/-! ## The equivalence -/

theorem same_refl {s : Shape} (hs : s.WellFormed) : s.same s = true := by
  induction s with
  | unknown => rfl
  | scalar k => simp [same]
  | optional s ih => exact ih (wellFormed_optional_iff.1 hs)
  | array s ih => exact ih (wellFormed_array_iff.1 hs)
  | object fs ih =>
    obtain ⟨hd, hfs⟩ := wellFormed_object_iff.1 hs
    refine same_object_iff.2 ⟨rfl, fun f hf => ⟨f.2, ?_, ih f hf (hfs f hf)⟩⟩
    exact Entries.get?_of_mem hd hf
  | union ms ih =>
    obtain ⟨_, _, hms⟩ := wellFormed_union_iff.1 hs
    exact same_union_iff_length.2 ⟨rfl, fun m hm => ⟨m, hm, ih m hm (hms m hm)⟩⟩

theorem same_trans {s t u : Shape} (h₁ : s.same t = true) (h₂ : t.same u = true) :
    s.same u = true := by
  induction s generalizing t u with
  | unknown =>
    cases same_inv h₁
    exact h₂
  | scalar k =>
    cases same_inv h₁
    exact h₂
  | optional a ih =>
    obtain ⟨b, rfl, hab⟩ := same_inv h₁
    obtain ⟨c, rfl, hbc⟩ := same_inv h₂
    exact ih hab hbc
  | array a ih =>
    obtain ⟨b, rfl, hab⟩ := same_inv h₁
    obtain ⟨c, rfl, hbc⟩ := same_inv h₂
    exact ih hab hbc
  | object fs ih =>
    obtain ⟨gs, rfl, hlen₁, hfs⟩ := same_inv h₁
    obtain ⟨hs, rfl, hlen₂, hgs⟩ := same_inv h₂
    refine same_object_iff.2 ⟨hlen₁.trans hlen₂, fun f hf => ?_⟩
    obtain ⟨t, ht, hft⟩ := hfs f hf
    obtain ⟨u, hu, htu⟩ := hgs _ (Entries.mem_of_get?_eq_some ht)
    exact ⟨u, hu, ih f hf hft htu⟩
  | union ms ih =>
    obtain ⟨ns, rfl, hlen₁, hms⟩ := same_inv h₁
    obtain ⟨os, rfl, hlen₂, hns⟩ := same_inv h₂
    refine same_union_iff_length.2 ⟨hlen₁.trans hlen₂, fun m hm => ?_⟩
    obtain ⟨n, hn, hmn⟩ := hms m hm
    obtain ⟨o, ho, hno⟩ := hns n hn
    exact ⟨o, ho, ih m hm hmn hno⟩

/-- Two members that equal one shape equal each other, so unequal members have partners of their
own. -/
theorem pairwise_partners {ms : List Shape} (hd : ms.Pairwise fun m n => m.same n = false)
    (hsymm : ∀ m ∈ ms, ∀ n, m.same n = true → n.same m = true) :
    ms.Pairwise fun m m' => ∀ n : Shape, m.same n = true → ¬m'.same n = true := by
  refine hd.imp_of_mem ?_
  intro m m' _ hm' hne n hmn hmn'
  have := same_trans hmn (hsymm m' hm' n hmn')
  rw [hne] at this
  cases this

theorem field_partners {fs gs : List (Text × Shape)}
    (h : ∀ f ∈ fs, ∃ t, Entries.get? f.1 gs = some t ∧ f.2.same t = true) :
    ∀ f ∈ fs, ∃ g ∈ gs, f.1 = g.1 ∧ f.2.same g.2 = true := by
  intro f hf
  obtain ⟨t, ht, hft⟩ := h f hf
  exact ⟨(f.1, t), Entries.mem_of_get?_eq_some ht, rfl, hft⟩

theorem pairwise_field_partners {fs : List (Text × Shape)} (hd : Entries.Distinct fs) :
    fs.Pairwise fun f f' => ∀ g : Text × Shape,
      (f.1 = g.1 ∧ f.2.same g.2 = true) → ¬(f'.1 = g.1 ∧ f'.2.same g.2 = true) := by
  refine (List.pairwise_map.1 hd).imp ?_
  intro f f' hne g h h'
  exact hne (h.1.trans h'.1.symm)

/-- Fields under different keys have partners of their own, and so have unequal members. With as
many on both sides none is left over. -/
theorem same_symm {s t : Shape} (hs : s.WellFormed) (h : s.same t = true) : t.same s = true := by
  induction s generalizing t with
  | unknown =>
    cases same_inv h
    rfl
  | scalar k =>
    cases same_inv h
    exact h
  | optional a ih =>
    obtain ⟨b, rfl, hab⟩ := same_inv h
    exact ih (wellFormed_optional_iff.1 hs) hab
  | array a ih =>
    obtain ⟨b, rfl, hab⟩ := same_inv h
    exact ih (wellFormed_array_iff.1 hs) hab
  | object fs ih =>
    obtain ⟨gs, rfl, hlen, hfs⟩ := same_inv h
    obtain ⟨hd, hwf⟩ := wellFormed_object_iff.1 hs
    refine same_object_iff.2 ⟨hlen.symm, fun g hg => ?_⟩
    obtain ⟨f, hf, hfg, hsame⟩ := exists_of_matching (field_partners hfs)
      (pairwise_field_partners hd) (Nat.le_of_eq hlen.symm) hg
    refine ⟨f.2, ?_, ih f hf (hwf f hf) hsame⟩
    rw [← hfg]
    exact Entries.get?_of_mem hd hf
  | union ms ih =>
    obtain ⟨ns, rfl, hlen, hms⟩ := same_inv h
    obtain ⟨_, hd, hwf⟩ := wellFormed_union_iff.1 hs
    have hsymm : ∀ m ∈ ms, ∀ n, m.same n = true → n.same m = true :=
      fun m hm n => ih m hm (hwf m hm)
    refine same_union_iff_length.2 ⟨hlen.symm, fun n hn => ?_⟩
    obtain ⟨m, hm, hmn⟩ :=
      exists_of_matching hms (pairwise_partners hd hsymm) (Nat.le_of_eq hlen.symm) hn
    exact ⟨m, hm, hsymm m hm n hmn⟩

theorem pairwise_partners_of_wellFormed {ms : List Shape} (hms : (union ms).WellFormed) :
    ms.Pairwise fun m m' => ∀ n : Shape, m.same n = true → ¬m'.same n = true := by
  obtain ⟨_, hd, hwf⟩ := wellFormed_union_iff.1 hms
  exact pairwise_partners hd fun m hm n => same_symm (hwf m hm)

/-- Equal objects have equal shapes under each key. -/
theorem exists_get?_of_same {fs gs : List (Text × Shape)}
    (h : (object fs).same (object gs) = true) {key : Text} {s : Shape}
    (hs : Entries.get? key fs = some s) : ∃ t, Entries.get? key gs = some t ∧ s.same t = true :=
  (same_object_iff.1 h).2 (key, s) (Entries.mem_of_get?_eq_some hs)

theorem exists_get?_of_same_right {fs gs : List (Text × Shape)} (hfs : (object fs).WellFormed)
    (h : (object fs).same (object gs) = true) {key : Text} {t : Shape}
    (ht : Entries.get? key gs = some t) : ∃ s, Entries.get? key fs = some s ∧ s.same t = true := by
  obtain ⟨s, hs, -⟩ := exists_get?_of_same (same_symm hfs h) ht
  obtain ⟨t', ht', hst⟩ := exists_get?_of_same h hs
  rw [ht] at ht'
  cases ht'
  exact ⟨s, hs, hst⟩

/-- Well-formed objects are equal as mappings; that they have as many fields then follows. -/
theorem same_object_iff_get? {fs gs : List (Text × Shape)} (hfs : (object fs).WellFormed)
    (hgs : (object gs).WellFormed) :
    (object fs).same (object gs) = true ↔ ∀ key,
      (Entries.get? key fs = none ∧ Entries.get? key gs = none) ∨
        ∃ s t, Entries.get? key fs = some s ∧ Entries.get? key gs = some t ∧ s.same t = true := by
  obtain ⟨hfd, -⟩ := wellFormed_object_iff.1 hfs
  obtain ⟨hgd, -⟩ := wellFormed_object_iff.1 hgs
  constructor
  · intro h key
    cases hf : Entries.get? key fs with
    | some s =>
      obtain ⟨t, ht, hst⟩ := exists_get?_of_same h hf
      exact .inr ⟨s, t, rfl, ht, hst⟩
    | none =>
      cases hg : Entries.get? key gs with
      | none => exact .inl ⟨rfl, rfl⟩
      | some t =>
        obtain ⟨s, hs, -⟩ := exists_get?_of_same_right hfs h hg
        rw [hf] at hs
        cases hs
  · intro h
    have hkeys : ∀ key, key ∈ Entries.keys fs ↔ key ∈ Entries.keys gs := by
      intro key
      rw [← Entries.exists_get?_eq_some_iff, ← Entries.exists_get?_eq_some_iff]
      rcases h key with ⟨hf, hg⟩ | ⟨s, t, hf, hg, -⟩ <;> simp [hf, hg]
    have hlen := ((List.perm_ext_iff_of_nodup hfd hgd).2 hkeys).length_eq
    rw [Entries.keys, Entries.keys, List.length_map, List.length_map] at hlen
    refine same_object_iff.2 ⟨hlen, fun f hf => ?_⟩
    have hget := Entries.get?_of_mem hfd hf
    rcases h f.1 with ⟨hnone, -⟩ | ⟨s, t, hs, ht, hst⟩
    · rw [hget] at hnone
      cases hnone
    · rw [hget] at hs
      cases hs
      exact ⟨t, ht, hst⟩

/-- Each member of an equal union is the partner of one. -/
theorem exists_member_of_same {ms ns : List Shape} (hms : (union ms).WellFormed)
    (h : (union ms).same (union ns) = true) {n : Shape} (hn : n ∈ ns) :
    ∃ m ∈ ms, m.same n = true := by
  obtain ⟨hlen, hmn⟩ := same_union_iff_length.1 h
  exact exists_of_matching hmn (pairwise_partners_of_wellFormed hms) (Nat.le_of_eq hlen.symm) hn

/-- Well-formed unions are equal as sets; that they are of one length then follows. -/
theorem same_union_iff {ms ns : List Shape} (hms : (union ms).WellFormed)
    (hns : (union ns).WellFormed) :
    (union ms).same (union ns) = true ↔
      (∀ m ∈ ms, ∃ n ∈ ns, m.same n = true) ∧ ∀ n ∈ ns, ∃ m ∈ ms, m.same n = true := by
  constructor
  · intro h
    exact ⟨(same_union_iff_length.1 h).2, fun n hn => exists_member_of_same hms h hn⟩
  · rintro ⟨hmn, hnm⟩
    have hR : ∀ n ∈ ns, ∃ m ∈ ms, n.same m = true := by
      intro n hn
      obtain ⟨m, hm, h⟩ := hnm n hn
      exact ⟨m, hm, same_symm ((wellFormed_union_iff.1 hms).2.2 m hm) h⟩
    have hle := length_le_of_matching hmn (pairwise_partners_of_wellFormed hms)
    have hge := length_le_of_matching hR (pairwise_partners_of_wellFormed hns)
    exact same_union_iff_length.2 ⟨Nat.le_antisymm hle hge, hmn⟩

end Shape

end JsonShape
