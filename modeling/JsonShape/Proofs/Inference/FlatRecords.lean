import JsonShape.Proofs.Inference.Records
import JsonShape.Proofs.Shape.Flat
import JsonShape.TypeScript.Document
/-!
# JsonShape.Proofs.Inference.FlatRecords

Objects whose fields hold no arrays and no objects. Joining them in another order may give another
shape, but schemas and declarations do not show it: they depend on which fields may be absent, and on
the kinds of each in the order in which they are first seen.

* `FlatRecords`: what is known of the fields of such objects that have been joined.
* `FlatRecords.strip_eq`: it fixes what stripping makes of each field.
* `Shape.inferSharded_emits_as_infer`: so both outputs are those of folding from the left.
-/

namespace JsonShape

/-- An object whose fields hold no arrays and no objects. -/
def Json.Value.IsFlatRecord (v : Json.Value) : Prop :=
  ∃ fs, v = .object fs ∧ ∀ f ∈ fs, ∃ k, f.2.kind = .scalar k

/-- What the objects have under a key, as far as they have it. -/
def valuesUnder (key : Text) (vs : List Json.Value) : List Json.Value :=
  vs.filterMap (Json.Value.field? key)

/-! ## Fields of joined records -/

/-- The kinds of each field are those of the values under its key, in first-seen order. -/
structure FlatRecords (vs : List Json.Value) (fs : List (Text × Shape)) : Prop
    extends Records vs fs where
  scalar : ∀ key, ∀ v ∈ valuesUnder key vs, ∃ k, Shape.ofValue v = .scalar k
  flat : ∀ key s, Entries.get? key fs = some s → s.Flat
  leaves : ∀ key s, Entries.get? key fs = some s →
    Shape.firsts s.leaves = Shape.firsts ((valuesUnder key vs).map Shape.ofValue)

theorem valuesUnder_append (key : Text) (us vs : List Json.Value) :
    valuesUnder key (us ++ vs) = valuesUnder key us ++ valuesUnder key vs :=
  List.filterMap_append

theorem Records.valuesUnder_eq_nil {vs : List Json.Value} {fs : List (Text × Shape)}
    (h : Records vs fs) {key : Text} (hkey : Entries.get? key fs = none) :
    valuesUnder key vs = [] := by
  rw [Entries.get?_eq_none_iff, h.keys, mem_keysSeen] at hkey
  refine List.filterMap_eq_nil_iff.2 fun v hv => ?_
  cases hfield : v.field? key with
  | none => rfl
  | some u =>
    have hmem := Json.Value.exists_field?_eq_some_iff.1 ⟨u, hfield⟩
    exact absurd ⟨v, hv, hmem⟩ hkey

theorem flatRecords_ofFields {es : List (Text × Json.Value)} (hes : (Json.Value.object es).WellFormed)
    (hscalar : ∀ e ∈ es, ∃ k, e.2.kind = .scalar k) :
    FlatRecords [.object es] (Shape.ofFields es) := by
  have hunder : ∀ key, valuesUnder key [.object es] = (Entries.get? key es).toList := by
    intro key
    cases hget : Entries.get? key es <;> simp [valuesUnder, Json.Value.field?, hget]
  have hkind : ∀ key v, Entries.get? key es = some v → ∃ k, Shape.ofValue v = .scalar k := by
    intro key v hv
    obtain ⟨k, hk⟩ := hscalar _ (Entries.mem_of_get?_eq_some hv)
    exact ⟨k, Shape.ofValue_of_scalar hk⟩
  refine ⟨records_ofFields hes, fun key v hv => ?_, fun key s hs => ?_, fun key s hs => ?_⟩
  · rw [hunder, Option.mem_toList] at hv
    exact hkind key v hv
  · rw [Shape.get?_ofFields] at hs
    obtain ⟨v, hv, rfl⟩ := Option.map_eq_some_iff.1 hs
    obtain ⟨k, hk⟩ := hkind key v hv
    exact hk ▸ .scalar k
  · rw [Shape.get?_ofFields] at hs
    obtain ⟨v, hv, rfl⟩ := Option.map_eq_some_iff.1 hs
    obtain ⟨k, hk⟩ := hkind key v hv
    rw [hunder, hv, Option.toList_some, List.map_singleton, hk]
    rfl

theorem FlatRecords.wellFormed_of_mem {vs : List Json.Value} {fs : List (Text × Shape)}
    (h : FlatRecords vs fs) (key : Text) :
    ∀ s ∈ (valuesUnder key vs).map Shape.ofValue, s.WellFormed := by
  intro s hs
  obtain ⟨v, hv, rfl⟩ := List.mem_map.1 hs
  obtain ⟨k, hk⟩ := h.scalar key v hv
  exact hk ▸ .scalar k

theorem flatRecords_joinFields {us vs : List Json.Value} {fs gs : List (Text × Shape)}
    (hu : FlatRecords us fs) (hv : FlatRecords vs gs) :
    FlatRecords (us ++ vs) (Shape.joinFields fs gs) := by
  refine ⟨records_joinFields hu.toRecords hv.toRecords, fun key v hmem => ?_, fun key s hs => ?_,
    fun key s hs => ?_⟩
  · rw [valuesUnder_append, List.mem_append] at hmem
    rcases hmem with hmem | hmem
    · exact hu.scalar key v hmem
    · exact hv.scalar key v hmem
  · rcases Shape.get?_joinFields_cases hs with
      ⟨x, y, hf, hg, rfl⟩ | ⟨x, hf, -, rfl⟩ | ⟨y, -, hg, rfl⟩
    · exact Shape.flat_join (hu.flat key x hf) (hv.flat key y hg) (hu.wellFormed_of_get? hf)
        (hv.wellFormed_of_get? hg)
    · exact Shape.flat_optionalOf (hu.flat key x hf)
    · exact Shape.flat_optionalOf (hv.flat key y hg)
  · rw [valuesUnder_append, List.map_append]
    rcases Shape.get?_joinFields_cases hs with
      ⟨x, y, hf, hg, rfl⟩ | ⟨x, hf, hg, rfl⟩ | ⟨y, hf, hg, rfl⟩
    · have hx := hu.wellFormed_of_get? hf
      rw [Shape.firsts_leaves_join (hu.flat key x hf) (hv.flat key y hg) hx
        (hv.wellFormed_of_get? hg)]
      exact Shape.firsts_append_congr (fun _ hl => Shape.wellFormed_of_mem_leaves hx hl)
        (hu.wellFormed_of_mem key) (hu.leaves key x hf) (hv.leaves key y hg)
    · rw [Shape.leaves_optionalOf, hv.valuesUnder_eq_nil hg, List.map_nil, List.append_nil]
      exact hu.leaves key x hf
    · rw [hu.valuesUnder_eq_nil hf, Shape.leaves_optionalOf]
      exact hv.leaves key y hg

/-- Two ways to join the same records come to the same, once absence is split off. -/
theorem FlatRecords.strip_eq {vs : List Json.Value} {fs gs : List (Text × Shape)}
    (hf : FlatRecords vs fs) (hg : FlatRecords vs gs) :
    (fs.map fun f => (f.1, f.2.strip)) = gs.map fun g => (g.1, g.2.strip) := by
  obtain ⟨hd, -⟩ := Shape.wellFormed_object_iff.1 hf.wellFormed
  refine Entries.mapValues_eq_of_keys_eq hd (hf.keys.trans hg.keys.symm) fun key s t hs ht => ?_
  have hoptional : s.strip.optional = t.strip.optional := by
    rw [Shape.strip_optional, Shape.strip_optional, Bool.eq_iff_iff, hf.absent key s hs,
      hg.absent key t ht]
  have hpresent : s.strip.present = t.strip.present := by
    rw [Shape.strip_present_of_flat (hf.flat key s hs) (hf.wellFormed_of_get? hs),
      Shape.strip_present_of_flat (hg.flat key t ht) (hg.wellFormed_of_get? ht), hf.leaves key s hs,
      hg.leaves key t ht]
  cases hs' : s.strip
  cases ht' : t.strip
  rw [hs', ht'] at hoptional hpresent
  cases hoptional
  cases hpresent
  rfl

theorem Bracketing.exists_flatRecords {b : Bracketing Json.Value} (hwf : ∀ v ∈ b.leaves, v.WellFormed)
    (hflat : ∀ v ∈ b.leaves, v.IsFlatRecord) (hne : b.leaves ≠ []) :
    ∃ fs, b.shape Shape.ofValue = .object fs ∧ FlatRecords b.leaves fs := by
  refine exists_fields (fun es hes => ?_) (fun _ _ _ _ => flatRecords_joinFields) (fun v hv => ?_) hne
  · obtain ⟨fs, hfs, hscalar⟩ := hflat _ hes
    cases hfs
    exact flatRecords_ofFields (hwf _ hes) hscalar
  · obtain ⟨fs, rfl, -⟩ := hflat v hv
    rfl

/-! ## Outputs -/

theorem Schema.ofShape_object_congr {fs gs : List (Text × Shape)}
    (h : (fs.map fun f => (f.1, f.2.strip)) = gs.map fun g => (g.1, g.2.strip)) :
    ofShape (.object fs) = ofShape (.object gs) := by
  have hproperties : ∀ fs : List (Text × Shape), (fs.map fun f => (f.1, ofShape f.2.strip.present)) =
      (fs.map fun f => (f.1, f.2.strip)).map fun p => (p.1, ofShape p.2.present) := by
    simp [Function.comp_def]
  have hrequired : ∀ fs : List (Text × Shape), requiredKeys fs =
      ((fs.map fun f => (f.1, f.2.strip)).filter fun p => !p.2.optional).map Prod.fst := by
    simp [requiredKeys, List.filter_map, Function.comp_def]
  rw [ofShape_object, ofShape_object, hproperties, hproperties, hrequired, hrequired, h]

namespace TypeScript

theorem fieldsOf_congr {fs gs : List (Text × Shape)}
    (h : (fs.map fun f => (f.1, f.2.strip)) = gs.map fun g => (g.1, g.2.strip)) (name : Text)
    (used : List Text) : fieldsOf fs name used = fieldsOf gs name used := by
  induction fs generalizing gs used with
  | nil => rw [List.map_eq_nil_iff.1 h.symm]
  | cons f fs ih =>
    cases gs with
    | nil => cases h
    | cons g gs =>
      obtain ⟨k, s⟩ := f
      obtain ⟨l, t⟩ := g
      obtain ⟨hhead, htail⟩ := List.cons.inj h
      obtain ⟨rfl, hstrip⟩ := Prod.mk.inj hhead
      rw [fieldsOf, fieldsOf, hstrip, ih htail]

theorem generate_object_congr {fs gs : List (Text × Shape)}
    (h : (fs.map fun f => (f.1, f.2.strip)) = gs.map fun g => (g.1, g.2.strip))
    (rootName source : Text) :
    generate (.object fs) rootName source = generate (.object gs) rootName source := by
  simp only [generate, declare, typeOf, fieldsOf_congr h]

end TypeScript

namespace Shape

/-- Shards may change the shape of flat records, but neither its schema nor its declarations. -/
theorem inferSharded_emits_as_infer (vs : List Json.Value) (hvs : ∀ v ∈ vs, v.WellFormed)
    (hflat : ∀ v ∈ vs, v.IsFlatRecord) (workers : Option Int) (size : Int) (hsize : 1 ≤ size)
    (hworkers : ∀ n ∈ workers, 0 < n) :
    ∃ s, (inferSharded vs workers size).result = .ok s ∧
      Schema.ofShape s = Schema.ofShape (infer vs) ∧
      ∀ rootName source,
        TypeScript.generate s rootName source = TypeScript.generate (infer vs) rootName source := by
  refine ⟨_, inferSharded_result_eq_ok vs hsize hworkers, ?_⟩
  by_cases hne : vs = []
  · subst hne
    simp [shards, shardsOfSucc, inferShards, joinPairs, infer, joinAll]
  · have hfields : ∀ s, s = infer vs ∨ s = inferShards (shards size.toNat vs) →
        ∃ fs, s = .object fs ∧ FlatRecords vs fs := by
      intro s hs
      obtain ⟨b, rfl, rfl⟩ := Bracketing.exists_of_fold hs
      exact b.exists_flatRecords hvs hflat hne
    obtain ⟨fs, hfs, hfrec⟩ := hfields _ (.inr rfl)
    obtain ⟨gs, hgs, hgrec⟩ := hfields _ (.inl rfl)
    have hstrip := hfrec.strip_eq hgrec
    rw [hfs, hgs]
    exact ⟨Schema.ofShape_object_congr hstrip, TypeScript.generate_object_congr hstrip⟩

/-- A key that comes and goes. From the left its field is a union with an optional member, inside an
optional mark; in shards of one it is an optional union. -/
theorem inferSharded_emits_as_infer_missing_key :
    let vs : List Json.Value :=
      [.object [], .object [("a", .int 1)], .object [("a", .string "x")], .object []]
    (∀ v ∈ vs, v.WellFormed) ∧ (∀ v ∈ vs, v.IsFlatRecord) ∧
      ∃ s, (inferSharded vs (some 1) 1).result = .ok s ∧ s.same (infer vs) = false ∧
        Schema.ofShape s = Schema.ofShape (infer vs) ∧
        ∀ rootName source,
          TypeScript.generate s rootName source = TypeScript.generate (infer vs) rootName source := by
  intro vs
  have hscalar : ∀ {v : Json.Value} {k : Scalar}, v.kind = .scalar k → v.WellFormed := .scalar
  have hvs : ∀ v ∈ vs, v.WellFormed := by
    simp [vs, Json.Value.wellFormed_object_iff, Entries.Distinct, Entries.keys,
      hscalar (v := .int 1) rfl, hscalar (v := .string "x") rfl]
  have hflat : ∀ v ∈ vs, v.IsFlatRecord := by
    simp [vs, Json.Value.IsFlatRecord, Json.Value.kind]
  have hworkers : ∀ n ∈ some (1 : Int), 0 < n := by simp
  obtain ⟨s, hs, hemits⟩ := inferSharded_emits_as_infer vs hvs hflat (some 1) 1 (by decide) hworkers
  refine ⟨hvs, hflat, s, hs, ?_, hemits⟩
  have hshards : shards (Int.toNat 1) vs =
      [[.object []], [.object [("a", .int 1)]], [.object [("a", .string "x")]], [.object []]] := by
    simp [shards, shardsOfSucc, vs]
  rw [inferSharded_result_eq_ok vs (by decide) hworkers, hshards] at hs
  cases hs
  simp only [inferShards, List.map_cons, List.map_nil, joinPairs, joinRound]
  rfl

end Shape

end JsonShape
