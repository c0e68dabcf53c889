import JsonShape.Proofs.Inference.Parts
/-!
# JsonShape.Proofs.Inference.Sharding

When inferring in shards gives the shape that folding from the left gives, for values whose objects
have the same keys wherever they meet.

* `Bracketing.Alike`: whether two bracketings merge the same, all the way down.
* `Bracketing.sameShape_iff_alike`: exactly then they give equal shapes.
* `Bracketing.alike_of_uniform`: they do if no array or object meets another kind.

The condition for shards follows, with a list that meets it and one that does not.
-/

namespace JsonShape

namespace Bracketing

/-! ## Merging the same -/

/-- Each group on one side has one of its kind on the other side whose parts are alike in turn. -/
inductive Alike : Bracketing Json.Value → Bracketing Json.Value → Prop where
  | groups {b c : Bracketing Json.Value} (R : Bracketing Json.Value → Bracketing Json.Value → Prop) :
      Paired R b.groups c.groups → (∀ g h, R g h → g.kind? = h.kind?) →
      (∀ g h, R g h → Alike g.items h.items) →
      (∀ g h, R g h → ∀ key, Alike (g.field key) (h.field key)) → Alike b c

def Matched (g h : Bracketing Json.Value) : Prop :=
  g.kind? = h.kind? ∧ Alike g.items h.items ∧ ∀ key, Alike (g.field key) (h.field key)

theorem Paired.imp {R S : Bracketing Json.Value → Bracketing Json.Value → Prop}
    {gs hs : List (Bracketing Json.Value)} (h : Paired R gs hs)
    (hRS : ∀ g ∈ gs, ∀ h ∈ hs, R g h → S g h) : Paired S gs hs := by
  obtain ⟨hgh, hhg⟩ := h
  constructor
  · intro g hg
    obtain ⟨h, hh, hR⟩ := hgh g hg
    exact ⟨h, hh, hRS g hg h hh hR⟩
  · intro h hh
    obtain ⟨g, hg, hR⟩ := hhg h hh
    exact ⟨g, hg, hRS g hg h hh hR⟩

theorem paired_congr {R S : Bracketing Json.Value → Bracketing Json.Value → Prop}
    {gs hs : List (Bracketing Json.Value)} (hRS : ∀ g ∈ gs, ∀ h ∈ hs, R g h ↔ S g h) :
    Paired R gs hs ↔ Paired S gs hs :=
  ⟨fun h => h.imp fun g hg h hh => (hRS g hg h hh).1,
    fun h => h.imp fun g hg h hh => (hRS g hg h hh).2⟩

theorem alike_iff_paired {b c : Bracketing Json.Value} :
    Alike b c ↔ Paired Matched b.groups c.groups := by
  constructor
  · rintro ⟨R, hpaired, hkind, hitems, hfield⟩
    exact hpaired.imp fun g _ h _ hR => ⟨hkind g h hR, hitems g h hR, hfield g h hR⟩
  · intro h
    exact .groups Matched h (fun _ _ h => h.1) (fun _ _ h => h.2.1) fun _ _ h => h.2.2

/-! ## Going down -/

/-- All leaves are smaller than a bound, on which inductions that go into parts run. -/
def Under (n : Nat) (b : Bracketing Json.Value) : Prop := ∀ v ∈ b.leaves, sizeOf v < n

theorem exists_under (b c : Bracketing Json.Value) : ∃ n, b.Under n ∧ c.Under n := by
  have hsum : ∀ vs : List Json.Value, ∀ v ∈ vs, sizeOf v < sizeOf vs := fun vs v hv =>
    List.sizeOf_lt_of_mem hv
  refine ⟨sizeOf b.leaves + sizeOf c.leaves, ?_, ?_⟩
  · intro v hv
    have := hsum _ v hv
    omega
  · intro v hv
    have := hsum _ v hv
    omega

theorem Under.of_mem_groups {n : Nat} {b g : Bracketing Json.Value} (h : b.Under n)
    (hg : g ∈ b.groups) : g.Under n :=
  fun v hv => h v (mem_leaves_of_mem_groups hg hv)

theorem Under.items {n : Nat} {b : Bracketing Json.Value} (h : b.Under (n + 1)) : b.items.Under n := by
  intro u hu
  obtain ⟨vs, hvs, hu⟩ := mem_leaves_items.1 hu
  have := h _ hvs
  have := List.sizeOf_lt_of_mem hu
  simp only [Json.Value.array.sizeOf_spec] at *
  omega

theorem Under.field {n : Nat} {b : Bracketing Json.Value} (h : b.Under (n + 1)) (key : Text) :
    (b.field key).Under n := by
  intro u hu
  obtain ⟨fs, hfs, hu⟩ := mem_leaves_field.1 hu
  have := h _ hfs
  have := List.sizeOf_lt_of_mem (Entries.mem_of_get?_eq_some hu)
  simp only [Json.Value.object.sizeOf_spec, Prod.mk.sizeOf_spec] at *
  omega

/-- Below the bound zero there is no leaf, and so no group. -/
theorem Under.not_mem_groups {b g : Bracketing Json.Value} (h : b.Under 0) : g ∉ b.groups := by
  intro hg
  obtain ⟨κ, hk⟩ := exists_ofKind_of_mem_groups hg
  obtain ⟨v, rest, hv, -⟩ := hk.exists_leaf
  have := h v (mem_leaves_of_mem_groups hg (by simp [hv]))
  omega

/-! ## Equal shapes -/

theorem sameShape_iff_alike {b c : Bracketing Json.Value} (hb : Regular b.leaves)
    (hc : Regular c.leaves) : SameShape b c ↔ Alike b c := by
  obtain ⟨n, hbn, hcn⟩ := exists_under b c
  induction n generalizing b c with
  | zero =>
    rw [sameShape_iff_paired hb.wellFormed hc.wellFormed, alike_iff_paired]
    exact paired_congr fun g hg => absurd hg hbn.not_mem_groups
  | succ n ih =>
    rw [sameShape_iff_paired hb.wellFormed hc.wellFormed, alike_iff_paired]
    refine paired_congr fun g hg h hh => ?_
    have hgr : Regular g.leaves := hb.mono fun v hv => mem_leaves_of_mem_groups hg hv
    have hhr : Regular h.leaves := hc.mono fun v hv => mem_leaves_of_mem_groups hh hv
    have hgn := hbn.of_mem_groups hg
    have hhn := hcn.of_mem_groups hh
    have hitems := ih hgr.items hhr.items hgn.items hhn.items
    have hfield := fun key => ih (hgr.field key) (hhr.field key) (hgn.field key) (hhn.field key)
    by_cases hkind : g.kind? = h.kind?
    · obtain ⟨κ, hgk⟩ := exists_ofKind_of_mem_groups hg
      obtain ⟨κ', hhk⟩ := exists_ofKind_of_mem_groups hh
      rw [hgk.kind?_eq, hhk.kind?_eq] at hkind
      cases hkind
      rw [sameShape_iff_parts hgk hhk hgr hhr, hitems]
      simp only [hfield, Matched, hgk.kind?_eq, hhk.kind?_eq, true_and]
    · exact ⟨fun h => absurd (kind?_eq_of_same_shape hg hh h) hkind, fun h => absurd h.1 hkind⟩

/-! ## Uniform values -/

theorem exists_group_of_mem_leaves {b : Bracketing Json.Value} {v : Json.Value}
    (hv : v ∈ b.leaves) : ∃ g ∈ b.groups, v ∈ g.leaves := by
  rw [← leaves_groups] at hv
  exact List.mem_flatMap.1 hv

theorem kind?_of_mem_groups {b g : Bracketing Json.Value} {κ : Kind}
    (hkind : ∀ v ∈ b.leaves, v.kind = κ) (hg : g ∈ b.groups) : g.kind? = some κ := by
  obtain ⟨l, hgk⟩ := exists_ofKind_of_mem_groups hg
  obtain ⟨v, rest, hv, hl⟩ := hgk.exists_leaf
  have := hkind v (mem_leaves_of_mem_groups hg (by simp [hv]))
  rw [hgk.kind?_eq, ← hl, this]

theorem length_mergeGroups_le_one {gs hs : List (Bracketing Json.Value)} (hgs : gs.length ≤ 1)
    (hhs : hs.length ≤ 1) (hkind : ∀ g ∈ gs, ∀ h ∈ hs, g.kind? = h.kind?) :
    (mergeGroups gs hs).length ≤ 1 := by
  fun_cases mergeGroups gs hs with
  | case1 g h hk => simp
  | case2 g h hk => exact absurd (hkind g (by simp) h (by simp)) hk
  | case3 gs hs hne =>
    rcases gs with _ | ⟨g, _ | ⟨g', gs⟩⟩
    · exact hhs
    · rcases hs with _ | ⟨h, _ | ⟨h', hs⟩⟩
      · simp
      · exact (hne g h rfl rfl).elim
      · simp at hhs
    · simp at hgs

/-- Values of one kind are all merged. -/
theorem length_groups_le_one {b : Bracketing Json.Value} {κ : Kind}
    (hkind : ∀ v ∈ b.leaves, v.kind = κ) : b.groups.length ≤ 1 := by
  induction b with
  | none => simp [groups]
  | leaf v => simp [groups]
  | node l r ihl ihr =>
    simp only [leaves, List.mem_append] at hkind
    have hl : ∀ v ∈ l.leaves, v.kind = κ := fun v hv => hkind v (.inl hv)
    have hr : ∀ v ∈ r.leaves, v.kind = κ := fun v hv => hkind v (.inr hv)
    refine length_mergeGroups_le_one (ihl hl) (ihr hr) fun g hg h hh => ?_
    rw [kind?_of_mem_groups hl hg, kind?_of_mem_groups hr hh]

theorem leaves_of_mem_groups {b g : Bracketing Json.Value} {κ : Kind}
    (hkind : ∀ v ∈ b.leaves, v.kind = κ) (hg : g ∈ b.groups) : g.leaves = b.leaves := by
  have hlen := length_groups_le_one hkind
  rw [← leaves_groups b]
  generalize b.groups = gs at *
  rcases gs with _ | ⟨h, _ | ⟨h', gs⟩⟩
  · cases hg
  · rw [List.mem_singleton.1 hg]
    simp
  · simp at hlen

theorem alike_of_leaves_nil {b c : Bracketing Json.Value} (hb : b.leaves = []) (hc : c.leaves = []) :
    Alike b c := by
  have hnil : ∀ {d : Bracketing Json.Value}, d.leaves = [] → ∀ g, g ∉ d.groups := by
    intro d hd g hg
    obtain ⟨κ, hgk⟩ := exists_ofKind_of_mem_groups hg
    obtain ⟨v, rest, hv, -⟩ := hgk.exists_leaf
    have := mem_leaves_of_mem_groups hg (v := v) (by simp [hv])
    rw [hd] at this
    cases this
  exact alike_iff_paired.2 ⟨fun g hg => absurd hg (hnil hb g), fun h hh => absurd hh (hnil hc h)⟩

/-- A group of arrays is all there is where it stands, and so is a group of objects. -/
theorem leaves_of_uniform {b g : Bracketing Json.Value} {κ : Kind} (hb : Uniform b.leaves)
    (hg : g ∈ b.groups) (hgk : g.OfKind κ) (hκ : κ = .array ∨ κ = .object) :
    g.leaves = b.leaves := by
  obtain ⟨u, rest, hu, hukind⟩ := hgk.exists_leaf
  have hub : u ∈ b.leaves := mem_leaves_of_mem_groups hg (by simp [hu])
  refine leaves_of_mem_groups (κ := κ) (fun v hv => ?_) hg
  obtain ⟨harray, hobject⟩ := hb u hub v hv [] u v (.here u) (.here v)
  rcases hκ with rfl | rfl
  · exact harray.1 hukind
  · exact hobject.1 hukind

theorem exists_group_of_kind {b c g : Bracketing Json.Value} (hbc : ∀ v ∈ b.leaves, v ∈ c.leaves)
    (hg : g ∈ b.groups) : ∃ h ∈ c.groups, g.kind? = h.kind? := by
  obtain ⟨κ, hgk⟩ := exists_ofKind_of_mem_groups hg
  obtain ⟨v, rest, hv, hvk⟩ := hgk.exists_leaf
  have hvb : v ∈ b.leaves := mem_leaves_of_mem_groups hg (by simp [hv])
  obtain ⟨h, hh, hvh⟩ := exists_group_of_mem_leaves (hbc v hvb)
  obtain ⟨l, hhl⟩ := exists_ofKind_of_mem_groups hh
  refine ⟨h, hh, ?_⟩
  rw [hgk.kind?_eq, hhl.kind?_eq, ← hvk, hhl.kind_of_mem hvh]

theorem alike_of_uniform {b c : Bracketing Json.Value} (hb : Uniform b.leaves)
    (hbc : ∀ v, v ∈ b.leaves ↔ v ∈ c.leaves) : Alike b c := by
  obtain ⟨n, hbn, hcn⟩ := exists_under b c
  induction n generalizing b c with
  | zero =>
    exact alike_iff_paired.2
      ⟨fun g hg => absurd hg hbn.not_mem_groups, fun h hh => absurd hh hcn.not_mem_groups⟩
  | succ n ih =>
    have hc : Uniform c.leaves := hb.mono fun v hv => (hbc v).2 hv
    have hmatched : ∀ g ∈ b.groups, ∀ h ∈ c.groups, g.kind? = h.kind? → Matched g h := by
      intro g hg h hh hkind
      obtain ⟨κ, hgk⟩ := exists_ofKind_of_mem_groups hg
      obtain ⟨κ', hhk⟩ := exists_ofKind_of_mem_groups hh
      have hkind' := hkind
      rw [hgk.kind?_eq, hhk.kind?_eq] at hkind'
      cases hkind'
      have hleaves : κ = .array ∨ κ = .object → ∀ v, v ∈ g.leaves ↔ v ∈ h.leaves := by
        intro hκ v
        rw [leaves_of_uniform hb hg hgk hκ, leaves_of_uniform hc hh hhk hκ, hbc]
      have hgb : Uniform g.leaves := hb.mono fun v hv => mem_leaves_of_mem_groups hg hv
      have hgn := hbn.of_mem_groups hg
      have hhn := hcn.of_mem_groups hh
      refine ⟨hkind, ?_, fun key => ?_⟩
      · by_cases hκ : κ = .array
        · refine ih hgb.items (fun u => ?_) hgn.items hhn.items
          simp only [mem_leaves_items, hleaves (.inl hκ)]
        · exact alike_of_leaves_nil (hgk.items_leaves hκ) (hhk.items_leaves hκ)
      · by_cases hκ : κ = .object
        · refine ih (hgb.field key) (fun u => ?_) (hgn.field key) (hhn.field key)
          simp only [mem_leaves_field, hleaves (.inr hκ)]
        · exact alike_of_leaves_nil (hgk.field_leaves hκ key) (hhk.field_leaves hκ key)
    rw [alike_iff_paired]
    constructor
    · intro g hg
      obtain ⟨h, hh, hkind⟩ := exists_group_of_kind (fun v => (hbc v).1) hg
      exact ⟨h, hh, hmatched g hg h hh hkind⟩
    · intro h hh
      obtain ⟨g, hg, hkind⟩ := exists_group_of_kind (fun v => (hbc v).2) hh
      exact ⟨g, hg, hmatched g hg h hh hkind.symm⟩

end Bracketing

namespace Shape

/-! ## Shards -/

/-- Inferring in shards gives the shape of folding from the left exactly if both merge the same. This
is so whenever arrays meet only arrays and objects only objects. -/
theorem inferSharded_same_infer_iff (vs : List Json.Value) (hvs : ∀ v ∈ vs, v.WellFormed)
    (hkeys : KeyComplete vs) (workers : Option Int) (size : Int) (hsize : 1 ≤ size)
    (hworkers : ∀ n ∈ workers, 0 < n) :
    ∃ s, (inferSharded vs workers size).result = .ok s ∧
      (s.same (infer vs) = true ↔
        Bracketing.Alike (.sharded size.toNat vs) (.left vs)) ∧
      (Uniform vs → s.same (infer vs) = true) := by
  have hleft : (Bracketing.left vs).leaves = vs := Bracketing.leaves_left vs
  have hsharded : (Bracketing.sharded size.toNat vs).leaves = vs := Bracketing.leaves_sharded _ vs
  have hiff : (inferShards (shards size.toNat vs)).same (infer vs) = true ↔
      Bracketing.Alike (.sharded size.toNat vs) (.left vs) := by
    rw [← Bracketing.shape_sharded, ← Bracketing.shape_left_ofValue]
    refine Bracketing.sameShape_iff_alike ?_ ?_
    · rw [hsharded]
      exact ⟨hvs, hkeys⟩
    · rw [hleft]
      exact ⟨hvs, hkeys⟩
  refine ⟨_, inferSharded_result_eq_ok vs hsize hworkers, hiff, fun huniform => hiff.2 ?_⟩
  refine Bracketing.alike_of_uniform ?_ ?_
  · rw [hsharded]
    exact huniform
  · intro v
    rw [hsharded, hleft]

/-- Objects that all have one key. Its scalars are of several kinds, which does no harm. -/
theorem inferSharded_same_infer_scalars :
    let vs : List Json.Value :=
      [.object [("a", .int 1)], .object [("a", .string "x")], .object [("a", .null)]]
    (∀ v ∈ vs, v.WellFormed) ∧ KeyComplete vs ∧ Uniform vs ∧ (1 : Int) ≤ 2 ∧
      (∀ n ∈ some (1 : Int), 0 < n) ∧
      ∃ s, (inferSharded vs (some 1) 2).result = .ok s ∧
        Bracketing.Alike (.sharded 2 vs) (.left vs) ∧ s.same (infer vs) = true := by
  intro vs
  have hscalar : ∀ {v : Json.Value} {k : Scalar}, v.kind = .scalar k → v.WellFormed := .scalar
  have hvs : ∀ v ∈ vs, v.WellFormed := by
    simp [vs, Json.Value.wellFormed_object_iff, Entries.Distinct, Entries.keys,
      hscalar (v := .int 1) rfl, hscalar (v := .string "x") rfl, hscalar (v := .null) rfl]
  -- Only the values themselves are objects, and all else stands under their key.
  have hplaces : ∀ v ∈ vs, ∀ path w, v.At path w →
      (path = [] ∧ ∃ x, w = .object [("a", x)]) ∨ path = [.key "a"] ∧ ∃ k, w.kind = .scalar k := by
    have hplace : ∀ (x : Json.Value) (k : Scalar), x.kind = .scalar k → ∀ path w,
        (Json.Value.object [("a", x)]).At path w →
        (path = [] ∧ ∃ x, w = .object [("a", x)]) ∨ path = [.key "a"] ∧ ∃ k, w.kind = .scalar k := by
      intro x k hx path w h
      cases h with
      | here => exact .inl ⟨rfl, x, rfl⟩
      | @key _ key v _ path hget h =>
        cases List.mem_singleton.1 (Entries.mem_of_get?_eq_some hget)
        obtain ⟨rfl, rfl⟩ := Json.Value.at_of_scalar hx h
        exact .inr ⟨rfl, k, hx⟩
    simp only [vs, List.forall_mem_cons]
    exact ⟨hplace _ _ rfl, hplace _ _ rfl, hplace _ _ rfl, by simp⟩
  have hkeys : KeyComplete vs := by
    intro u hu v hv path x y hx hy fs gs hfs hgs
    rcases hplaces u hu path x hx with ⟨rfl, a, hxa⟩ | ⟨-, k, hk⟩
    · rcases hplaces v hv [] y hy with ⟨-, b, hyb⟩ | ⟨hpath, -⟩
      · rw [hfs] at hxa
        rw [hgs] at hyb
        cases hxa
        cases hyb
        simp [Entries.keys]
      · cases hpath
    · rw [hfs] at hk
      cases hk
  have huniform : Uniform vs := by
    intro u hu v hv path x y hx hy
    rcases hplaces u hu path x hx with ⟨rfl, a, rfl⟩ | ⟨rfl, k, hk⟩
    · rcases hplaces v hv [] y hy with ⟨-, b, rfl⟩ | ⟨hpath, -⟩
      · simp [SameSort, Json.Value.kind]
      · cases hpath
    · rcases hplaces v hv _ y hy with ⟨hpath, -⟩ | ⟨-, l, hl⟩
      · cases hpath
      · simp [SameSort, hk, hl]
  have hworkers : ∀ n ∈ some (1 : Int), 0 < n := by simp
  obtain ⟨s, hs, hiff, hsame⟩ :=
    inferSharded_same_infer_iff vs hvs hkeys (some 1) 2 (by decide) hworkers
  exact ⟨hvs, hkeys, huniform, by decide, hworkers, s, hs, hiff.1 (hsame huniform), hsame huniform⟩

/-- Two numbers, an array of a number and an array of a text. From the left the arrays enter a union
one by one; in shards of two they are merged before they get there. -/
theorem sharding_changes_shape :
    let vs : List Json.Value := [.int 0, .int 0, .array [.int 0], .array [.string ""]]
    let inShards : Shape :=
      .union [.scalar .number, .array (.union [.scalar .number, .scalar .string])]
    (∀ v ∈ vs, v.WellFormed) ∧ KeyComplete vs ∧
      (inferSharded vs (some 1) 2).result = .ok inShards ∧
      infer vs = .union [.scalar .number, .array (.scalar .number), .array (.scalar .string)] ∧
      inShards.same (infer vs) = false := by
  intro vs inShards
  have hvs : ∀ v ∈ vs, v.WellFormed := by
    have hnumber : (Json.Value.int 0).WellFormed := .scalar rfl
    have htext : (Json.Value.string "").WellFormed := .scalar rfl
    simp [vs, Json.Value.wellFormed_array_iff, hnumber, htext]
  have hobject : ∀ v ∈ vs, ∀ path fs, ¬v.At path (.object fs) := by
    have hscalar : ∀ (x : Json.Value) (k : Scalar), x.kind = .scalar k → ∀ path fs,
        ¬x.At path (.object fs) := by
      intro x k hx path fs h
      obtain ⟨-, rfl⟩ := Json.Value.at_of_scalar hx h
      cases hx
    have harray : ∀ (x : Json.Value) (k : Scalar), x.kind = .scalar k → ∀ path fs,
        ¬(Json.Value.array [x]).At path (.object fs) := by
      intro x k hx path fs h
      cases h with
      | item hv h =>
        rw [List.mem_singleton.1 hv] at h
        exact hscalar x k hx _ fs h
    simp only [vs, List.forall_mem_cons]
    exact ⟨hscalar _ _ rfl, hscalar _ _ rfl, harray _ _ rfl, harray _ _ rfl, by simp⟩
  have hkeys : KeyComplete vs := by
    intro u hu v _ path x y hx _ fs gs hfs
    rw [hfs] at hx
    exact absurd hx (hobject u hu path fs)
  have hinfer : infer vs =
      .union [.scalar .number, .array (.scalar .number), .array (.scalar .string)] := rfl
  have hresult : (inferSharded vs (some 1) 2).result = .ok inShards := by
    rw [inferSharded_result_eq_ok vs (by decide) (by simp)]
    have hparts : shards (Int.toNat 2) vs =
        [[.int 0, .int 0], [.array [.int 0], .array [.string ""]]] := by
      simp [shards, shardsOfSucc, vs]
    rw [hparts, inferShards, List.map_cons, List.map_cons, List.map_nil, joinPairs.eq_3, joinRound,
      joinRound, joinPairs]
    · rfl
    · intro s t rest h
      cases h
  exact ⟨hvs, hkeys, hresult, hinfer, rfl⟩

end Shape

end JsonShape
