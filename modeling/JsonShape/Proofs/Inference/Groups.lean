import JsonShape.Proofs.Inference.Bracketing
/-!
# JsonShape.Proofs.Inference.Groups

Which values a bracketing really merges. Two shapes of one kind are merged, others are put side by
side in a union, and what has entered a union is merged with nothing any more.

* `Bracketing.groups`: the largest parts whose values are merged with each other.
* `Bracketing.mergeGroups_of_mixed`: once two kinds have met, nothing is merged any more.
* `Bracketing.made_groups`: what comes out of the groups of a bracketing.
* `Bracketing.sameShape_iff_paired`: shapes are equal exactly if they come from groups that have
  equal shapes.
-/

namespace JsonShape

namespace Shape

/-- The kind of the values of a shape that is neither optional nor a union. -/
def kind? : Shape → Option Kind
  | .scalar k => some (.scalar k)
  | .array _ => some .array
  | .object _ => some .object
  | _ => none

theorem kind?_eq_of_same {s t : Shape} (h : s.same t = true) : s.kind? = t.kind? := by
  cases s <;> cases t <;> simp_all [same, kind?]

theorem not_same_of_kind? {s t : Shape} {κ : Kind} (hs : s.kind? = some κ) (ht : t.kind? = none) :
    ¬s.same t = true ∧ ¬t.same s = true := by
  constructor
  · intro h
    have := kind?_eq_of_same h
    rw [hs, ht] at this
    cases this
  · intro h
    have := kind?_eq_of_same h
    rw [hs, ht] at this
    cases this

theorem alternatives_of_kind? {s : Shape} {κ : Kind} (h : s.kind? = some κ) :
    s.alternatives = [s] := by
  cases s with
  | union ms => cases h
  | _ => rfl

theorem kind?_join {s t : Shape} {κ : Kind} (hs : s.kind? = some κ) (ht : t.kind? = some κ) :
    (s.join t).kind? = some κ := by
  cases s with
  | unknown | optional | union => cases hs
  | scalar k =>
    cases hs
    cases t with
    | scalar l =>
      cases ht
      rw [scalar_join_self]
      rfl
    | _ => cases ht
  | array s =>
    cases hs
    cases t with
    | array t => rfl
    | _ => cases ht
  | object fs =>
    cases hs
    cases t with
    | object gs => rfl
    | _ => cases ht

theorem join_of_kind?_ne {s t : Shape} {κ l : Kind} (hs : s.kind? = some κ) (ht : t.kind? = some l)
    (hne : κ ≠ l) : s.join t = unionOf [s, t] := by
  induction s, t using join_ind with
  | unknown_left t => cases hs
  | unknown_right s => cases ht
  | scalar k => cases hs; cases ht; exact absurd rfl hne
  | optional s t _ => cases hs
  | array s t _ => cases hs; cases ht; exact absurd rfl hne
  | object fs gs _ => cases hs; cases ht; exact absurd rfl hne
  | union s t h => exact h

theorem union_join {ms : List Shape} {t : Shape} (ht : t ≠ .unknown) :
    (union ms).join t = unionOf [union ms, t] := by
  cases t with
  | unknown => exact absurd rfl ht
  | _ => rfl

theorem join_union {s : Shape} {ns : List Shape} (hs : s ≠ .unknown) :
    s.join (union ns) = unionOf [s, union ns] := by
  cases s with
  | unknown => exact absurd rfl hs
  | _ => rfl

end Shape

namespace Bracketing

/-! ## Groups -/

/-- All leaves are of one kind, and there are leaves. -/
inductive OfKind (κ : Kind) : Bracketing Json.Value → Prop where
  | leaf {v : Json.Value} : v.kind = κ → OfKind κ (leaf v)
  | node {l r : Bracketing Json.Value} : OfKind κ l → OfKind κ r → OfKind κ (node l r)

/-- The kind of the first leaf. -/
def kind? (b : Bracketing Json.Value) : Option Kind := b.leaves.head?.map Json.Value.kind

/-- Merges what has stayed in one group on both sides, if it is of one kind. -/
def mergeGroups : (gs hs : List (Bracketing Json.Value)) → List (Bracketing Json.Value)
  | [g], [h] => if g.kind? = h.kind? then [node g h] else [g, h]
  | gs, hs => gs ++ hs

def groups : Bracketing Json.Value → List (Bracketing Json.Value)
  | none => []
  | leaf v => [leaf v]
  | node l r => mergeGroups l.groups r.groups

theorem OfKind.exists_leaf {κ : Kind} {g : Bracketing Json.Value} (h : g.OfKind κ) :
    ∃ v rest, g.leaves = v :: rest ∧ v.kind = κ := by
  induction h with
  | leaf hv => exact ⟨_, [], rfl, hv⟩
  | @node l r _ _ ihl _ =>
    obtain ⟨v, rest, hl, hv⟩ := ihl
    exact ⟨v, rest ++ r.leaves, by rw [leaves, hl]; rfl, hv⟩

theorem OfKind.kind?_eq {κ : Kind} {g : Bracketing Json.Value} (h : g.OfKind κ) :
    g.kind? = some κ := by
  obtain ⟨v, rest, hg, hv⟩ := h.exists_leaf
  simp [kind?, hg, hv]

theorem OfKind.kind_of_mem {κ : Kind} {g : Bracketing Json.Value} (h : g.OfKind κ) {v : Json.Value}
    (hv : v ∈ g.leaves) : v.kind = κ := by
  induction h with
  | leaf h => rwa [List.mem_singleton.1 hv]
  | node _ _ ihl ihr =>
    rcases List.mem_append.1 hv with hv | hv
    · exact ihl hv
    · exact ihr hv

theorem mergeGroups_nil (gs : List (Bracketing Json.Value)) : mergeGroups gs [] = gs := by
  cases gs <;> simp [mergeGroups]

/-- Either side is merged with the other as a whole, or all groups stay as they are. -/
theorem mergeGroups_cases (gs hs : List (Bracketing Json.Value)) :
    (∃ g h, gs = [g] ∧ hs = [h] ∧ g.kind? = h.kind? ∧ mergeGroups gs hs = [node g h]) ∨
      mergeGroups gs hs = gs ++ hs := by
  fun_cases mergeGroups gs hs with
  | case1 g h hk => exact .inl ⟨g, h, rfl, rfl, hk, rfl⟩
  | case2 g h hk => exact .inr rfl
  | case3 => exact .inr rfl

/-- Two groups are of different kinds. -/
def Mixed (gs : List (Bracketing Json.Value)) : Prop := ∃ g ∈ gs, ∃ h ∈ gs, g.kind? ≠ h.kind?

theorem not_mixed_nil : ¬Mixed [] := by
  simp [Mixed]

theorem not_mixed_singleton (g : Bracketing Json.Value) : ¬Mixed [g] := by
  simp [Mixed]

theorem Mixed.ne_nil {gs : List (Bracketing Json.Value)} (h : Mixed gs) : gs ≠ [] := by
  rintro rfl
  exact not_mixed_nil h

theorem Mixed.append_right {gs : List (Bracketing Json.Value)} (h : Mixed gs)
    (hs : List (Bracketing Json.Value)) : Mixed (gs ++ hs) := by
  obtain ⟨g, hg, g', hg', hne⟩ := h
  exact ⟨g, List.mem_append_left _ hg, g', List.mem_append_left _ hg', hne⟩

theorem Mixed.append_left {hs : List (Bracketing Json.Value)} (h : Mixed hs)
    (gs : List (Bracketing Json.Value)) : Mixed (gs ++ hs) := by
  obtain ⟨h, hh, h', hh', hne⟩ := h
  exact ⟨h, List.mem_append_right _ hh, h', List.mem_append_right _ hh', hne⟩

theorem mergeGroups_of_mixed {gs hs : List (Bracketing Json.Value)} (h : Mixed gs ∨ Mixed hs) :
    mergeGroups gs hs = gs ++ hs := by
  rcases mergeGroups_cases gs hs with ⟨g, h', rfl, rfl, -, -⟩ | hmerge
  · rcases h with h | h
    · exact absurd h (not_mixed_singleton _)
    · exact absurd h (not_mixed_singleton _)
  · exact hmerge

theorem exists_ofKind_of_mem_groups {b g : Bracketing Json.Value} (hg : g ∈ b.groups) :
    ∃ κ, g.OfKind κ := by
  induction b generalizing g with
  | none => cases hg
  | leaf v =>
    rw [groups, List.mem_singleton] at hg
    exact ⟨v.kind, hg ▸ .leaf rfl⟩
  | node l r ihl ihr =>
    rw [groups] at hg
    rcases mergeGroups_cases l.groups r.groups with ⟨g', h', hl, hr, hk, hmerge⟩ | hmerge
    · rw [hmerge, List.mem_singleton] at hg
      obtain ⟨κ, hg'⟩ := ihl (g := g') (by simp [hl])
      obtain ⟨κ', hh'⟩ := ihr (g := h') (by simp [hr])
      rw [hg'.kind?_eq, hh'.kind?_eq] at hk
      cases hk
      exact ⟨κ, hg ▸ .node hg' hh'⟩
    · rw [hmerge, List.mem_append] at hg
      rcases hg with hg | hg
      · exact ihl hg
      · exact ihr hg

theorem leaves_groups (b : Bracketing Json.Value) : b.groups.flatMap leaves = b.leaves := by
  induction b with
  | none => rfl
  | leaf v => rfl
  | node l r ihl ihr =>
    rw [groups, leaves, ← ihl, ← ihr]
    rcases mergeGroups_cases l.groups r.groups with ⟨g, h, hl, hr, -, hmerge⟩ | hmerge
    · rw [hmerge, hl, hr]
      simp [leaves]
    · rw [hmerge, List.flatMap_append]

theorem mem_leaves_of_mem_groups {b g : Bracketing Json.Value} (hg : g ∈ b.groups) {v : Json.Value}
    (hv : v ∈ g.leaves) : v ∈ b.leaves := by
  rw [← leaves_groups]
  exact List.mem_flatMap.2 ⟨g, hg, hv⟩

/-! ## Shapes of groups -/

theorem OfKind.kind?_shape {κ : Kind} {g : Bracketing Json.Value} (h : g.OfKind κ) :
    (g.shape Shape.ofValue).kind? = some κ := by
  induction h with
  | @leaf v hv =>
    subst hv
    cases v <;> rfl
  | node _ _ ihl ihr => exact Shape.kind?_join ihl ihr

/-- What comes out of groups: a group's own shape, or a union of the shapes of several, of which two
are of different kinds. -/
inductive Made : List (Bracketing Json.Value) → Shape → Prop where
  | none : Made [] .unknown
  | one (g : Bracketing Json.Value) : Made [g] (g.shape Shape.ofValue)
  | many {gs : List (Bracketing Json.Value)} {ms : List Shape} : Mixed gs →
      (∀ m ∈ ms, ∃ g ∈ gs, m = g.shape Shape.ofValue) →
      (∀ g ∈ gs, ∃ m ∈ ms, m.same (g.shape Shape.ofValue) = true) → Made gs (.union ms)

theorem Made.eq_unknown {s : Shape} (h : Made [] s) : s = .unknown := by
  cases h with
  | none => rfl
  | many hmixed => exact absurd hmixed not_mixed_nil

theorem Made.ne_unknown {gs : List (Bracketing Json.Value)} {s : Shape} (h : Made gs s)
    (hne : gs ≠ []) (hgs : ∀ g ∈ gs, ∃ κ, g.OfKind κ) : s ≠ .unknown := by
  cases h with
  | none => exact absurd rfl hne
  | one g =>
    obtain ⟨κ, hg⟩ := hgs g (by simp)
    have := hg.kind?_shape
    intro h
    rw [h] at this
    cases this
  | many => exact Shape.noConfusion

theorem Made.of_mem_alternatives {gs : List (Bracketing Json.Value)} {s m : Shape} (h : Made gs s)
    (hne : gs ≠ []) (hgs : ∀ g ∈ gs, ∃ κ, g.OfKind κ) (hm : m ∈ s.alternatives) :
    ∃ g ∈ gs, m = g.shape Shape.ofValue := by
  cases h with
  | none => exact absurd rfl hne
  | one g =>
    obtain ⟨κ, hg⟩ := hgs g (by simp)
    rw [Shape.alternatives_of_kind? hg.kind?_shape, List.mem_singleton] at hm
    exact ⟨g, by simp, hm⟩
  | many _ hms => exact hms m hm

theorem Made.exists_alternative {gs : List (Bracketing Json.Value)} {s : Shape} (h : Made gs s)
    (hgs : ∀ g ∈ gs, ∃ κ, g.OfKind κ) {g : Bracketing Json.Value} (hg : g ∈ gs)
    (hwf : (g.shape Shape.ofValue).WellFormed) :
    ∃ m ∈ s.alternatives, m.same (g.shape Shape.ofValue) = true := by
  cases h with
  | none => cases hg
  | one g' =>
    obtain ⟨κ, hg'⟩ := hgs g' (by simp)
    rw [List.mem_singleton] at hg
    subst hg
    rw [Shape.alternatives_of_kind? hg'.kind?_shape]
    exact ⟨_, by simp, Shape.same_refl hwf⟩
  | many _ _ hms => exact hms g hg

section Shapes

variable {l r : Bracketing Json.Value} (hl : ∀ v ∈ l.leaves, v.WellFormed)
  (hr : ∀ v ∈ r.leaves, v.WellFormed)

include hl in
theorem wellFormed_shape_ofValue : (l.shape Shape.ofValue).WellFormed :=
  wellFormed_shape fun v hv => Shape.wellFormed_ofValue (hl v hv)

include hl in
theorem wellFormed_shape_of_mem_groups {g : Bracketing Json.Value} (hg : g ∈ l.groups) :
    (g.shape Shape.ofValue).WellFormed :=
  wellFormed_shape_ofValue fun v hv => hl v (mem_leaves_of_mem_groups hg hv)

include hl hr in
/-- Two sides that are put side by side. -/
theorem made_append {s t : Shape} (hs : Made l.groups s) (ht : Made r.groups t)
    (hlne : l.groups ≠ []) (hrne : r.groups ≠ []) (hjoin : s.join t = Shape.unionOf [s, t])
    (hmixed : Mixed (l.groups ++ r.groups)) :
    Made (l.groups ++ r.groups) (s.join t) := by
  have hlk : ∀ g ∈ l.groups, ∃ κ, g.OfKind κ := fun g => exists_ofKind_of_mem_groups
  have hrk : ∀ g ∈ r.groups, ∃ κ, g.OfKind κ := fun g => exists_ofKind_of_mem_groups
  have hwf : ∀ g ∈ l.groups ++ r.groups, (g.shape Shape.ofValue).WellFormed := by
    intro g hg
    rcases List.mem_append.1 hg with hg | hg
    · exact wellFormed_shape_of_mem_groups hl hg
    · exact wellFormed_shape_of_mem_groups hr hg
  have hfrom : ∀ m ∈ [s, t].flatMap Shape.alternatives,
      ∃ g ∈ l.groups ++ r.groups, m = g.shape Shape.ofValue := by
    intro m hm
    simp only [List.flatMap_cons, List.flatMap_nil, List.append_nil, List.mem_append] at hm
    rcases hm with hm | hm
    · obtain ⟨g, hg, h⟩ := hs.of_mem_alternatives hlne hlk hm
      exact ⟨g, List.mem_append_left _ hg, h⟩
    · obtain ⟨g, hg, h⟩ := ht.of_mem_alternatives hrne hrk hm
      exact ⟨g, List.mem_append_right _ hg, h⟩
  rw [hjoin]
  refine .many hmixed (fun m hm => hfrom m (Shape.mem_of_mem_firsts hm)) fun g hg => ?_
  have hto : ∃ m ∈ [s, t].flatMap Shape.alternatives, m.same (g.shape Shape.ofValue) = true := by
    simp only [List.flatMap_cons, List.flatMap_nil, List.append_nil, List.mem_append]
    rcases List.mem_append.1 hg with hg' | hg'
    · obtain ⟨m, hm, h⟩ := hs.exists_alternative hlk hg' (hwf g hg)
      exact ⟨m, .inl hm, h⟩
    · obtain ⟨m, hm, h⟩ := ht.exists_alternative hrk hg' (hwf g hg)
      exact ⟨m, .inr hm, h⟩
  obtain ⟨m, hm, hmg⟩ := hto
  obtain ⟨g', hg', rfl⟩ := hfrom m hm
  obtain ⟨n, hn, hnm⟩ := Shape.exists_same_mem_firsts (hwf g' hg') hm
  exact ⟨n, hn, Shape.same_trans hnm hmg⟩

include hl hr in
/-- One join of what came out of groups. -/
theorem made_join {s t : Shape} (hs : Made l.groups s) (ht : Made r.groups t) :
    Made (mergeGroups l.groups r.groups) (s.join t) := by
  have happend := made_append hl hr hs ht
  have hlk : ∀ g ∈ l.groups, ∃ κ, g.OfKind κ := fun g => exists_ofKind_of_mem_groups
  have hrk : ∀ g ∈ r.groups, ∃ κ, g.OfKind κ := fun g => exists_ofKind_of_mem_groups
  have hsne := fun h => hs.ne_unknown h hlk
  have htne := fun h => ht.ne_unknown h hrk
  generalize l.groups = gs at *
  generalize r.groups = hs' at *
  have hmade := hs
  cases hs with
  | none => exact ht
  | one g =>
    cases ht with
    | none => rw [mergeGroups_nil, Shape.join_unknown]; exact .one g
    | one h =>
      obtain ⟨κ, hg⟩ := hlk g (by simp)
      obtain ⟨κ', hh⟩ := hrk h (by simp)
      rw [mergeGroups]
      split
      · exact .one (node g h)
      · rename_i hk
        have hne : κ ≠ κ' := by
          rintro rfl
          exact hk (hg.kind?_eq.trans hh.kind?_eq.symm)
        exact happend (by simp) (by simp) (Shape.join_of_kind?_ne hg.kind?_shape hh.kind?_shape hne)
          ⟨g, by simp, h, by simp, hk⟩
    | many hmixed =>
      rw [mergeGroups_of_mixed (.inr hmixed)]
      exact happend (by simp) hmixed.ne_nil (Shape.join_union (hsne (by simp)))
        (hmixed.append_left _)
  | many hmixed =>
    rw [mergeGroups_of_mixed (.inl hmixed)]
    by_cases hnil : hs' = []
    · subst hnil
      rw [ht.eq_unknown, List.append_nil, Shape.join_unknown]
      exact hmade
    · exact happend hmixed.ne_nil hnil (Shape.union_join (htne hnil)) (hmixed.append_right _)

end Shapes

theorem made_groups {b : Bracketing Json.Value} (hb : ∀ v ∈ b.leaves, v.WellFormed) :
    Made b.groups (b.shape Shape.ofValue) := by
  induction b with
  | none => exact .none
  | leaf v => exact .one (leaf v)
  | node l r ihl ihr =>
    simp only [leaves, List.mem_append] at hb
    have hl : ∀ v ∈ l.leaves, v.WellFormed := fun v hv => hb v (.inl hv)
    have hr : ∀ v ∈ r.leaves, v.WellFormed := fun v hv => hb v (.inr hv)
    exact made_join hl hr (ihl hl) (ihr hr)

/-! ## Equality by groups -/

theorem kind?_eq_of_same_shape {b c g h : Bracketing Json.Value} (hg : g ∈ b.groups)
    (hh : h ∈ c.groups) (hsame : (g.shape Shape.ofValue).same (h.shape Shape.ofValue) = true) :
    g.kind? = h.kind? := by
  obtain ⟨κ, hg⟩ := exists_ofKind_of_mem_groups hg
  obtain ⟨l, hh⟩ := exists_ofKind_of_mem_groups hh
  have := Shape.kind?_eq_of_same hsame
  rw [hg.kind?_shape, hh.kind?_shape] at this
  rw [hg.kind?_eq, hh.kind?_eq, this]

/-- Each group has a partner on the other side, by a relation that runs from left to right. -/
def Paired (R : Bracketing Json.Value → Bracketing Json.Value → Prop)
    (gs hs : List (Bracketing Json.Value)) : Prop :=
  (∀ g ∈ gs, ∃ h ∈ hs, R g h) ∧ ∀ h ∈ hs, ∃ g ∈ gs, R g h

theorem Paired.nil_iff {R : Bracketing Json.Value → Bracketing Json.Value → Prop}
    {gs hs : List (Bracketing Json.Value)} (h : Paired R gs hs) : gs = [] ↔ hs = [] := by
  obtain ⟨hgh, hhg⟩ := h
  constructor
  · rintro rfl
    refine List.eq_nil_iff_forall_not_mem.2 fun h hh => ?_
    obtain ⟨g, hg, -⟩ := hhg h hh
    cases hg
  · rintro rfl
    refine List.eq_nil_iff_forall_not_mem.2 fun g hg => ?_
    obtain ⟨h, hh, -⟩ := hgh g hg
    cases hh

theorem Paired.mixed_iff {R : Bracketing Json.Value → Bracketing Json.Value → Prop}
    {gs hs : List (Bracketing Json.Value)} (h : Paired R gs hs)
    (hR : ∀ g ∈ gs, ∀ h ∈ hs, R g h → g.kind? = h.kind?) : Mixed gs ↔ Mixed hs := by
  obtain ⟨hgh, hhg⟩ := h
  constructor
  · rintro ⟨g, hg, g', hg', hne⟩
    obtain ⟨h, hh, hgh'⟩ := hgh g hg
    obtain ⟨h', hh', hgh''⟩ := hgh g' hg'
    refine ⟨h, hh, h', hh', ?_⟩
    rw [← hR g hg h hh hgh', ← hR g' hg' h' hh' hgh'']
    exact hne
  · rintro ⟨h, hh, h', hh', hne⟩
    obtain ⟨g, hg, hhg'⟩ := hhg h hh
    obtain ⟨g', hg', hhg''⟩ := hhg h' hh'
    refine ⟨g, hg, g', hg', ?_⟩
    rw [hR g hg h hh hhg', hR g' hg' h' hh' hhg'']
    exact hne

def SameShape (g h : Bracketing Json.Value) : Prop :=
  (g.shape Shape.ofValue).same (h.shape Shape.ofValue) = true

theorem union_same_union_iff {gs hs : List (Bracketing Json.Value)} {ms ns : List Shape}
    (hms : (Shape.union ms).WellFormed) (hns : (Shape.union ns).WellFormed)
    (hfroml : ∀ m ∈ ms, ∃ g ∈ gs, m = g.shape Shape.ofValue)
    (htol : ∀ g ∈ gs, ∃ m ∈ ms, m.same (g.shape Shape.ofValue) = true)
    (hfromr : ∀ n ∈ ns, ∃ h ∈ hs, n = h.shape Shape.ofValue)
    (htor : ∀ h ∈ hs, ∃ n ∈ ns, n.same (h.shape Shape.ofValue) = true) :
    (Shape.union ms).same (.union ns) = true ↔ Paired SameShape gs hs := by
  have hmwf := (Shape.wellFormed_union_iff.1 hms).2.2
  have hnwf := (Shape.wellFormed_union_iff.1 hns).2.2
  rw [Shape.same_union_iff hms hns]
  constructor
  · rintro ⟨hmn, hnm⟩
    constructor
    · intro g hg
      obtain ⟨m, hm, hmg⟩ := htol g hg
      obtain ⟨n, hn, hmn⟩ := hmn m hm
      obtain ⟨h, hh, rfl⟩ := hfromr n hn
      exact ⟨h, hh, Shape.same_trans (Shape.same_symm (hmwf m hm) hmg) hmn⟩
    · intro h hh
      obtain ⟨n, hn, hnh⟩ := htor h hh
      obtain ⟨m, hm, hmn⟩ := hnm n hn
      obtain ⟨g, hg, rfl⟩ := hfroml m hm
      exact ⟨g, hg, Shape.same_trans hmn hnh⟩
  · rintro ⟨hgh, hhg⟩
    constructor
    · intro m hm
      obtain ⟨g, hg, rfl⟩ := hfroml m hm
      obtain ⟨h, hh, hsame⟩ := hgh g hg
      obtain ⟨n, hn, hnh⟩ := htor h hh
      exact ⟨n, hn, Shape.same_trans hsame (Shape.same_symm (hnwf n hn) hnh)⟩
    · intro n hn
      obtain ⟨h, hh, rfl⟩ := hfromr n hn
      obtain ⟨g, hg, hsame⟩ := hhg h hh
      obtain ⟨m, hm, hmg⟩ := htol g hg
      exact ⟨m, hm, Shape.same_trans hmg hsame⟩

/-- Equal shapes come from groups that have equal shapes. Two groups of different kinds always leave
a union behind, which equals no shape of one group. -/
theorem sameShape_iff_paired {b c : Bracketing Json.Value} (hb : ∀ v ∈ b.leaves, v.WellFormed)
    (hc : ∀ v ∈ c.leaves, v.WellFormed) :
    SameShape b c ↔ Paired SameShape b.groups c.groups := by
  have hbk : ∀ g ∈ b.groups, ∃ κ, g.OfKind κ := fun g => exists_ofKind_of_mem_groups
  have hck : ∀ h ∈ c.groups, ∃ κ, h.OfKind κ := fun h => exists_ofKind_of_mem_groups
  have hbwf := wellFormed_shape_ofValue hb
  have hcwf := wellFormed_shape_ofValue hc
  have hkind : ∀ g ∈ b.groups, ∀ h ∈ c.groups, SameShape g h → g.kind? = h.kind? :=
    fun g hg h hh => kind?_eq_of_same_shape hg hh
  have hbm := made_groups hb
  have hcm := made_groups hc
  show (b.shape Shape.ofValue).same (c.shape Shape.ofValue) = true ↔ _
  generalize b.groups = gs at *
  generalize c.groups = hs at *
  generalize b.shape Shape.ofValue = s at *
  generalize c.shape Shape.ofValue = t at *
  have hnil := fun h : Paired SameShape gs hs => h.nil_iff
  have hmixed := fun h : Paired SameShape gs hs => h.mixed_iff hkind
  -- Off the diagonal there is neither equality nor a pairing.
  cases hbm with
  | none =>
    cases hcm with
    | none => simp [Paired, Shape.same]
    | one h =>
      obtain ⟨κ, hh⟩ := hck h (by simp)
      have hdiff := Shape.not_same_of_kind? (t := .unknown) hh.kind?_shape rfl
      exact iff_of_false hdiff.2 fun hp => List.cons_ne_nil h [] ((hnil hp).1 rfl)
    | many hcmixed =>
      exact iff_of_false (by simp [Shape.same]) fun hp => hcmixed.ne_nil ((hnil hp).1 rfl)
  | one g =>
    obtain ⟨κ, hg⟩ := hbk g (by simp)
    cases hcm with
    | none =>
      have hdiff := Shape.not_same_of_kind? (t := .unknown) hg.kind?_shape rfl
      exact iff_of_false hdiff.1 fun hp => List.cons_ne_nil g [] ((hnil hp).2 rfl)
    | one h => simp [Paired, SameShape]
    | @many _ ns hcmixed =>
      have hdiff := Shape.not_same_of_kind? (t := .union ns) hg.kind?_shape rfl
      exact iff_of_false hdiff.1 fun hp => not_mixed_singleton g ((hmixed hp).2 hcmixed)
  | @many _ ms hbmixed hfroml htol =>
    cases hcm with
    | none => exact iff_of_false (by simp [Shape.same]) fun hp => hbmixed.ne_nil ((hnil hp).2 rfl)
    | one h =>
      obtain ⟨κ, hh⟩ := hck h (by simp)
      have hdiff := Shape.not_same_of_kind? (t := .union ms) hh.kind?_shape rfl
      exact iff_of_false hdiff.2 fun hp => not_mixed_singleton h ((hmixed hp).1 hbmixed)
    | many _ hfromr htor => exact union_same_union_iff hbwf hcwf hfroml htol hfromr htor

end Bracketing

end JsonShape
