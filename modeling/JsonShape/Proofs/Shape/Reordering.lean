import JsonShape.Proofs.Shape.Congruence
/-!
# JsonShape.Proofs.Shape.Reordering

What equality of shapes looks past, and nothing else: the order of fields and members.

* `Shape.Reordered`: fields and members stand in another order, at any depth.
* `Shape.same_iff_reordered`: shapes are equal exactly if one is a reordering of the other.
* `Shape.same_object_ofPairs`, `Shape.same_unionOf_pairs`: objects and unions made of equal shapes are
  equal.
* `Shape.same_is_equivalence`: equality is an equivalence and a congruence.
-/

namespace JsonShape.Shape

/-! ## Reordering -/

inductive Reordered : Shape → Shape → Prop where
  | refl (s : Shape) : Reordered s s
  | trans {s t u : Shape} : Reordered s t → Reordered t u → Reordered s u
  | fields {fs gs : List (Text × Shape)} : fs.Perm gs → Reordered (.object fs) (.object gs)
  | members {ms ns : List Shape} : ms.Perm ns → Reordered (.union ms) (.union ns)
  | optional {s t : Shape} : Reordered s t → Reordered (.optional s) (.optional t)
  | array {s t : Shape} : Reordered s t → Reordered (.array s) (.array t)
  | field {before after : List (Text × Shape)} {key : Text} {s t : Shape} : Reordered s t →
      Reordered (.object (before ++ (key, s) :: after)) (.object (before ++ (key, t) :: after))
  | member {before after : List Shape} {s t : Shape} : Reordered s t →
      Reordered (.union (before ++ s :: after)) (.union (before ++ t :: after))

/-! ## Reordered shapes are equal -/

theorem not_same_symm {s t : Shape} (ht : t.WellFormed) (h : s.same t = false) :
    t.same s = false := by
  rw [← Bool.not_eq_true] at h ⊢
  exact fun hts => h (same_symm ht hts)

theorem wellFormed_object_perm {fs gs : List (Text × Shape)} (hfs : (object fs).WellFormed)
    (h : fs.Perm gs) : (object gs).WellFormed := by
  obtain ⟨hd, hwf⟩ := wellFormed_object_iff.1 hfs
  exact .object ((h.map Prod.fst).nodup hd) fun g hg => hwf g (h.mem_iff.2 hg)

theorem same_object_perm {fs gs : List (Text × Shape)} (hfs : (object fs).WellFormed)
    (h : fs.Perm gs) : (object fs).same (object gs) = true := by
  obtain ⟨hd, -⟩ := wellFormed_object_iff.1 (wellFormed_object_perm hfs h)
  refine same_object_iff.2 ⟨h.length_eq, fun f hf => ⟨f.2, ?_, ?_⟩⟩
  · exact Entries.get?_of_mem hd (h.mem_iff.1 hf)
  · exact same_refl ((wellFormed_object_iff.1 hfs).2 f hf)

/-- Being unequal does not depend on the order of well-formed members. -/
theorem wellFormed_union_perm {ms ns : List Shape} (hms : (union ms).WellFormed) (h : ms.Perm ns) :
    (union ns).WellFormed := by
  obtain ⟨hflat, hd, hwf⟩ := wellFormed_union_iff.1 hms
  have hboth : ms.Pairwise fun m n => m.same n = false ∧ n.same m = false :=
    hd.imp_of_mem fun _ hn h => ⟨h, not_same_symm (hwf _ hn) h⟩
  have hns := (h.pairwise_iff fun h => ⟨h.2, h.1⟩).1 hboth
  exact .union (fun n hn => hflat n (h.mem_iff.2 hn)) (hns.imp fun h => h.1)
    fun n hn => hwf n (h.mem_iff.2 hn)

theorem same_union_perm {ms ns : List Shape} (hms : (union ms).WellFormed) (h : ms.Perm ns) :
    (union ms).same (union ns) = true := by
  refine same_union_iff_length.2 ⟨h.length_eq, fun m hm => ⟨m, h.mem_iff.1 hm, ?_⟩⟩
  exact same_refl ((wellFormed_union_iff.1 hms).2.2 m hm)

theorem wellFormed_object_replace {before after : List (Text × Shape)} {key : Text} {s t : Shape}
    (h : (object (before ++ (key, s) :: after)).WellFormed) (ht : t.WellFormed) :
    (object (before ++ (key, t) :: after)).WellFormed := by
  obtain ⟨hd, hwf⟩ := wellFormed_object_iff.1 h
  refine .object (by simpa [Entries.Distinct, Entries.keys] using hd) fun f hf => ?_
  simp only [List.mem_append, List.mem_cons] at hf hwf
  rcases hf with hf | rfl | hf
  · exact hwf f (.inl hf)
  · exact ht
  · exact hwf f (.inr (.inr hf))

theorem same_object_replace {before after : List (Text × Shape)} {key : Text} {s t : Shape}
    (h : (object (before ++ (key, s) :: after)).WellFormed) (ht : t.WellFormed)
    (hst : s.same t = true) :
    (object (before ++ (key, s) :: after)).same (object (before ++ (key, t) :: after)) = true := by
  obtain ⟨-, hwf⟩ := wellFormed_object_iff.1 h
  obtain ⟨hd, -⟩ := wellFormed_object_iff.1 (wellFormed_object_replace h ht)
  have hkept : ∀ f ∈ before ++ (key, s) :: after, f ∈ before ++ (key, t) :: after →
      ∃ u, Entries.get? f.1 (before ++ (key, t) :: after) = some u ∧ f.2.same u = true :=
    fun f hf hf' => ⟨f.2, Entries.get?_of_mem hd hf', same_refl (hwf f hf)⟩
  refine same_object_iff.2 ⟨by simp, fun f hf => ?_⟩
  rcases List.mem_append.1 hf with hbefore | hrest
  · exact hkept f hf (by simp [hbefore])
  · rcases List.mem_cons.1 hrest with rfl | hafter
    · exact ⟨t, Entries.get?_of_mem hd (by simp), hst⟩
    · exact hkept f hf (by simp [hafter])

theorem wellFormed_union_replace {before after : List Shape} {s t : Shape}
    (h : (union (before ++ s :: after)).WellFormed) (ht : t.WellFormed) (hst : s.same t = true) :
    (union (before ++ t :: after)).WellFormed := by
  obtain ⟨hflat, hd, hwf⟩ := wellFormed_union_iff.1 h
  have hs : s.WellFormed := hwf s (by simp)
  have hleft : ∀ u : Shape, u.same s = false → u.same t = false := by
    intro u hus
    rw [← Bool.not_eq_true] at hus ⊢
    exact fun hut => hus (same_trans hut (same_symm hs hst))
  have hright : ∀ u : Shape, s.same u = false → t.same u = false := by
    intro u hsu
    rw [← Bool.not_eq_true] at hsu ⊢
    exact fun htu => hsu (same_trans hst htu)
  rw [List.forall_mem_append, List.forall_mem_cons] at hflat hwf
  rw [List.pairwise_append, List.pairwise_cons] at hd
  obtain ⟨hbefore, ⟨hafter, hd⟩, hacross⟩ := hd
  refine wellFormed_union_iff.2 ⟨?_, ?_, ?_⟩
  · rw [List.forall_mem_append, List.forall_mem_cons]
    exact ⟨hflat.1, (isUnion_eq_of_same hst).symm.trans hflat.2.1, hflat.2.2⟩
  · rw [List.pairwise_append, List.pairwise_cons]
    refine ⟨hbefore, ⟨fun u hu => hright u (hafter u hu), hd⟩, fun u hu => ?_⟩
    have hu := hacross u hu
    rw [List.forall_mem_cons] at hu ⊢
    exact ⟨hleft u hu.1, hu.2⟩
  · rw [List.forall_mem_append, List.forall_mem_cons]
    exact ⟨hwf.1, ht, hwf.2.2⟩

theorem same_union_replace {before after : List Shape} {s t : Shape}
    (h : (union (before ++ s :: after)).WellFormed) (hst : s.same t = true) :
    (union (before ++ s :: after)).same (union (before ++ t :: after)) = true := by
  obtain ⟨-, -, hwf⟩ := wellFormed_union_iff.1 h
  refine same_union_iff_length.2 ⟨by simp, fun m hm => ?_⟩
  have hself := same_refl (hwf m hm)
  rw [List.mem_append, List.mem_cons] at hm
  rcases hm with hbefore | rfl | hafter
  · exact ⟨m, by simp [hbefore], hself⟩
  · exact ⟨t, by simp, hst⟩
  · exact ⟨m, by simp [hafter], hself⟩

theorem same_of_reordered {s t : Shape} (hs : s.WellFormed) (h : s.Reordered t) :
    t.WellFormed ∧ s.same t = true := by
  induction h with
  | refl s => exact ⟨hs, same_refl hs⟩
  | trans _ _ ih₁ ih₂ =>
    obtain ⟨ht, hst⟩ := ih₁ hs
    obtain ⟨hu, htu⟩ := ih₂ ht
    exact ⟨hu, same_trans hst htu⟩
  | fields h => exact ⟨wellFormed_object_perm hs h, same_object_perm hs h⟩
  | members h => exact ⟨wellFormed_union_perm hs h, same_union_perm hs h⟩
  | optional _ ih =>
    obtain ⟨ht, hst⟩ := ih (wellFormed_optional_iff.1 hs)
    exact ⟨.optional ht, hst⟩
  | array _ ih =>
    obtain ⟨ht, hst⟩ := ih (wellFormed_array_iff.1 hs)
    exact ⟨.array ht, hst⟩
  | @field before after key s t _ ih =>
    obtain ⟨ht, hst⟩ := ih ((wellFormed_object_iff.1 hs).2 (key, s) (by simp))
    exact ⟨wellFormed_object_replace hs ht, same_object_replace hs ht hst⟩
  | @member before after s t _ ih =>
    obtain ⟨ht, hst⟩ := ih ((wellFormed_union_iff.1 hs).2.2 s (by simp))
    exact ⟨wellFormed_union_replace hs ht hst, same_union_replace hs hst⟩

/-! ## Equal shapes are reordered -/

theorem reordered_object_of_pairs {ps : List ((Text × Shape) × (Text × Shape))}
    (hps : ∀ p ∈ ps, p.1.1 = p.2.1 ∧ p.1.2.Reordered p.2.2) (before : List (Text × Shape)) :
    Reordered (.object (before ++ ps.map Prod.fst)) (.object (before ++ ps.map Prod.snd)) := by
  induction ps generalizing before with
  | nil => exact .refl _
  | cons p ps ih =>
    obtain ⟨⟨key, s⟩, ⟨key', t⟩⟩ := p
    obtain ⟨⟨hkey, hst⟩, htail⟩ := List.forall_mem_cons.1 hps
    obtain rfl : key = key' := hkey
    have hrest := ih htail (before ++ [(key, t)])
    rw [List.append_assoc, List.append_assoc] at hrest
    exact .trans (.field hst) hrest

theorem reordered_union_of_pairs {ps : List (Shape × Shape)} (hps : ∀ p ∈ ps, p.1.Reordered p.2)
    (before : List Shape) :
    Reordered (.union (before ++ ps.map Prod.fst)) (.union (before ++ ps.map Prod.snd)) := by
  induction ps generalizing before with
  | nil => exact .refl _
  | cons p ps ih =>
    obtain ⟨s, t⟩ := p
    obtain ⟨hst, hps⟩ := List.forall_mem_cons.1 hps
    have hrest := ih hps (before ++ [t])
    rw [List.append_assoc, List.append_assoc] at hrest
    exact .trans (.member hst) hrest

/-- Fields are paired by their keys and members by equality; each partner is a reordering, and the
partners stand in some order. -/
theorem reordered_of_same {s t : Shape} (hs : s.WellFormed) (h : s.same t = true) :
    s.Reordered t := by
  induction s generalizing t with
  | unknown =>
    cases same_inv h
    exact .refl _
  | scalar k =>
    cases same_inv h
    exact .refl _
  | optional a ih =>
    obtain ⟨b, rfl, hab⟩ := same_inv h
    exact .optional (ih (wellFormed_optional_iff.1 hs) hab)
  | array a ih =>
    obtain ⟨b, rfl, hab⟩ := same_inv h
    exact .array (ih (wellFormed_array_iff.1 hs) hab)
  | object fs ih =>
    obtain ⟨gs, rfl, hlen, hfs⟩ := same_inv h
    obtain ⟨hd, hwf⟩ := wellFormed_object_iff.1 hs
    obtain ⟨ps, rfl, hperm, hps⟩ := exists_full_pairing (field_partners hfs)
      (pairwise_field_partners hd) (Nat.le_of_eq hlen.symm)
    refine .trans (reordered_object_of_pairs (fun p hp => ?_) []) (.fields hperm)
    have hmem : p.1 ∈ ps.map Prod.fst := List.mem_map_of_mem hp
    exact ⟨(hps p hp).1, ih p.1 hmem (hwf p.1 hmem) (hps p hp).2⟩
  | union ms ih =>
    obtain ⟨ns, rfl, hlen, hms⟩ := same_inv h
    obtain ⟨-, -, hwf⟩ := wellFormed_union_iff.1 hs
    obtain ⟨ps, rfl, hperm, hps⟩ := exists_full_pairing hms
      (pairwise_partners_of_wellFormed hs) (Nat.le_of_eq hlen.symm)
    refine .trans (reordered_union_of_pairs (fun p hp => ?_) []) (.members hperm)
    have hmem : p.1 ∈ ps.map Prod.fst := List.mem_map_of_mem hp
    exact ih p.1 hmem (hwf p.1 hmem) (hps p hp)

theorem same_iff_reordered {s t : Shape} (hs : s.WellFormed) : s.same t = true ↔ s.Reordered t :=
  ⟨reordered_of_same hs, fun h => (same_of_reordered hs h).2⟩

/-! ## Objects and unions made of equal shapes -/

/-- Whether two mappings have the same keys and equal shapes under each. -/
def Fieldwise (fs gs : List (Text × Shape)) : Prop :=
  (∀ key, key ∈ Entries.keys fs ↔ key ∈ Entries.keys gs) ∧
    ∀ key s t, Entries.get? key fs = some s → Entries.get? key gs = some t → s.same t = true

theorem same_object_iff_fieldwise {fs gs : List (Text × Shape)} (hfs : (object fs).WellFormed)
    (hgs : (object gs).WellFormed) : (object fs).same (object gs) = true ↔ Fieldwise fs gs := by
  rw [same_object_iff_get? hfs hgs]
  constructor
  · intro h
    constructor
    · intro key
      rw [← Entries.exists_get?_eq_some_iff, ← Entries.exists_get?_eq_some_iff]
      rcases h key with ⟨hf, hg⟩ | ⟨s, t, hf, hg, -⟩ <;> simp [hf, hg]
    · intro key s t hf hg
      rcases h key with ⟨hf', -⟩ | ⟨s', t', hf', hg', hst⟩
      · simp [hf] at hf'
      · rw [hf] at hf'
        rw [hg] at hg'
        cases hf'
        cases hg'
        exact hst
  · rintro ⟨hkeys, hsame⟩ key
    have hkey := hkeys key
    rw [← Entries.exists_get?_eq_some_iff, ← Entries.exists_get?_eq_some_iff] at hkey
    cases hf : Entries.get? key fs with
    | none =>
      refine .inl ⟨rfl, ?_⟩
      cases hg : Entries.get? key gs with
      | none => rfl
      | some t => simp [hf, hg] at hkey
    | some s =>
      obtain ⟨t, hg⟩ := hkey.1 ⟨s, hf⟩
      exact .inr ⟨s, t, rfl, hg, hsame key s t hf hg⟩

theorem fieldwise_put {fs gs : List (Text × Shape)} (h : Fieldwise fs gs) (key : Text) {s t : Shape}
    (hst : s.same t = true) : Fieldwise (Entries.put key s fs) (Entries.put key t gs) := by
  constructor
  · intro other
    by_cases hkey : key = other
    · subst hkey
      simp [← Entries.exists_get?_eq_some_iff, Entries.get?_put_self]
    · simp only [← Entries.exists_get?_eq_some_iff, Entries.get?_put_of_ne hkey]
      rw [Entries.exists_get?_eq_some_iff, Entries.exists_get?_eq_some_iff]
      exact h.1 other
  · intro other u v hu hv
    by_cases hkey : key = other
    · subst hkey
      rw [Entries.get?_put_self] at hu hv
      cases hu
      cases hv
      exact hst
    · rw [Entries.get?_put_of_ne hkey] at hu hv
      exact h.2 other u v hu hv

theorem fieldwise_ofPairs {ps : List (Text × Shape × Shape)}
    (hps : ∀ p ∈ ps, p.2.1.same p.2.2 = true) :
    Fieldwise (Entries.ofPairs (ps.map fun p => (p.1, p.2.1)))
      (Entries.ofPairs (ps.map fun p => (p.1, p.2.2))) := by
  have hfold : ∀ fs gs : List (Text × Shape), Fieldwise fs gs →
      Fieldwise ((ps.map fun p => (p.1, p.2.1)).foldl (fun es p => Entries.put p.1 p.2 es) fs)
        ((ps.map fun p => (p.1, p.2.2)).foldl (fun es p => Entries.put p.1 p.2 es) gs) := by
    induction ps with
    | nil => exact fun _ _ h => h
    | cons p ps ih =>
      obtain ⟨hp, hps⟩ := List.forall_mem_cons.1 hps
      exact fun fs gs h => ih hps _ _ (fieldwise_put h p.1 hp)
  exact hfold [] [] ⟨fun _ => Iff.rfl, fun _ _ _ h => by cases h⟩

theorem same_object_ofPairs {ps : List (Text × Shape × Shape)}
    (hwf : ∀ p ∈ ps, p.2.1.WellFormed ∧ p.2.2.WellFormed) (hps : ∀ p ∈ ps, p.2.1.same p.2.2 = true) :
    (object (Entries.ofPairs (ps.map fun p => (p.1, p.2.1)))).same
      (object (Entries.ofPairs (ps.map fun p => (p.1, p.2.2)))) = true := by
  refine (same_object_iff_fieldwise (wellFormed_object_ofPairs fun f hf => ?_)
    (wellFormed_object_ofPairs fun f hf => ?_)).2 (fieldwise_ofPairs hps)
  · obtain ⟨p, hp, rfl⟩ := List.mem_map.1 hf
    exact (hwf p hp).1
  · obtain ⟨p, hp, rfl⟩ := List.mem_map.1 hf
    exact (hwf p hp).2

theorem same_unionOf_pairs {ps : List (Shape × Shape)}
    (hwf : ∀ p ∈ ps, p.1.WellFormed ∧ p.2.WellFormed) (hps : ∀ p ∈ ps, p.1.same p.2 = true) :
    (unionOf (ps.map Prod.fst)).same (unionOf (ps.map Prod.snd)) = true := by
  refine same_unionOf ?_ ?_ ?_ ?_
  · intro s hs
    obtain ⟨p, hp, rfl⟩ := List.mem_map.1 hs
    exact (hwf p hp).1
  · intro t ht
    obtain ⟨p, hp, rfl⟩ := List.mem_map.1 ht
    exact (hwf p hp).2
  · intro s hs
    obtain ⟨p, hp, rfl⟩ := List.mem_map.1 hs
    exact ⟨p.2, List.mem_map_of_mem hp, hps p hp⟩
  · intro t ht
    obtain ⟨p, hp, rfl⟩ := List.mem_map.1 ht
    exact ⟨p.1, List.mem_map_of_mem hp, same_symm (hwf p hp).1 (hps p hp)⟩

/-- Equality is an equivalence. It is that of mappings for objects and that of sets for unions, it
passes to all that is made of equal shapes, and it is the smallest relation that does so and does not
see the order of fields and members. -/
theorem same_is_equivalence :
    (Equivalence fun s t : {s : Shape // s.WellFormed} => s.1.same t.1 = true) ∧
    (∀ fs gs : List (Text × Shape), (object fs).WellFormed → (object gs).WellFormed →
      ((object fs).same (object gs) = true ↔
        (∀ key, key ∈ Entries.keys fs ↔ key ∈ Entries.keys gs) ∧
          ∀ key s t, Entries.get? key fs = some s → Entries.get? key gs = some t →
            s.same t = true)) ∧
    (∀ ms ns : List Shape, (union ms).WellFormed → (union ns).WellFormed →
      ((union ms).same (union ns) = true ↔
        (∀ m ∈ ms, ∃ n ∈ ns, m.same n = true) ∧ ∀ n ∈ ns, ∃ m ∈ ms, m.same n = true)) ∧
    (∀ s t : Shape, s.same t = true →
      (optional s).same (optional t) = true ∧ (array s).same (array t) = true) ∧
    (∀ ps : List (Text × Shape × Shape), (∀ p ∈ ps, p.2.1.WellFormed ∧ p.2.2.WellFormed) →
      (∀ p ∈ ps, p.2.1.same p.2.2 = true) →
      (object (Entries.ofPairs (ps.map fun p => (p.1, p.2.1)))).same
        (object (Entries.ofPairs (ps.map fun p => (p.1, p.2.2)))) = true) ∧
    (∀ ps : List (Shape × Shape), (∀ p ∈ ps, p.1.WellFormed ∧ p.2.WellFormed) →
      (∀ p ∈ ps, p.1.same p.2 = true) →
      (unionOf (ps.map Prod.fst)).same (unionOf (ps.map Prod.snd)) = true) ∧
    ∀ s t : Shape, s.WellFormed →
      (s.same t = true ↔ s.Reordered t) ∧ (s.Reordered t → t.WellFormed) := by
  refine ⟨⟨fun s => same_refl s.2, fun {s _} => same_symm s.2, same_trans⟩, ?_, ?_, ?_, ?_, ?_, ?_⟩
  · exact fun fs gs => same_object_iff_fieldwise
  · exact fun ms ns => same_union_iff
  · exact fun s t h => ⟨h, h⟩
  · exact fun ps => same_object_ofPairs
  · exact fun ps => same_unionOf_pairs
  · exact fun s t hs => ⟨same_iff_reordered hs, fun h => (same_of_reordered hs h).1⟩

/-- A union deep inside an object with its members in another order, and the fields too. -/
theorem same_is_equivalence_nested :
    let u : Shape := .union [.scalar .null, .array .unknown]
    let u' : Shape := .union [.array .unknown, .scalar .null]
    let s : Shape := .object [("a", .array u), ("b", .union [])]
    let t : Shape := .object [("b", .union []), ("a", .array u')]
    (s.WellFormed ∧ s.Reordered t) ∧ t.WellFormed ∧ s.same t = true ∧ t.same s = true ∧
      (array s).same (array t) = true ∧
      (object (Entries.ofPairs [("k", t), ("k", s)])).same
        (object (Entries.ofPairs [("k", s), ("k", t)])) = true ∧
      (unionOf [s, u]).same (unionOf [t, u']) = true := by
  intro u u' s t
  have hu : u.WellFormed := by
    simp [u, wellFormed_union_iff, wellFormed_array_iff, isUnion, same, WellFormed.scalar,
      WellFormed.unknown]
  have hs : s.WellFormed := by
    simp +decide [s, wellFormed_object_iff, wellFormed_array_iff, wellFormed_union_iff,
      Entries.Distinct, Entries.keys, hu]
  have huu : u.Reordered u' := .members (.swap ..)
  have hfield : s.Reordered (.object [("a", .array u'), ("b", .union [])]) :=
    @Reordered.field [] [("b", .union [])] "a" _ _ (.array huu)
  have hst : s.Reordered t := .trans hfield (.fields (.swap ..))
  obtain ⟨hequivalence, -, -, hwrap, hobject, hunion, hreordered⟩ := same_is_equivalence
  have ht : t.WellFormed := (hreordered s t hs).2 hst
  have hu' : u'.WellFormed := (hreordered u u' hu).2 huu
  have hsame : s.same t = true := (hreordered s t hs).1.2 hst
  have hsymm : t.same s = true := hequivalence.symm (x := ⟨s, hs⟩) (y := ⟨t, ht⟩) hsame
  refine ⟨⟨hs, hst⟩, ht, hsame, hsymm, (hwrap s t hsame).2, ?_, ?_⟩
  · exact hobject [("k", t, s), ("k", s, t)] (by simp [hs, ht]) (by simp [hsame, hsymm])
  · exact hunion [(s, t), (u, u')] (by simp [hs, ht, hu, hu'])
      (by simp [hsame, (hreordered u u' hu).1.2 huu])

end JsonShape.Shape
