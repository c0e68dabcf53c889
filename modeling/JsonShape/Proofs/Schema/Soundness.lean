import JsonShape.Proofs.Json.Reading
import JsonShape.Proofs.Schema.Exactness
import JsonShape.Proofs.Shape.Describes
/-!
# JsonShape.Proofs.Schema.Soundness

The schema of a shape accepts what the shape describes, so a schema accepts the values it was
inferred from.

* `Schema.admits_of_describes`: what a shape describes it admits, and so it is valid under the schema.
* `Schema.validates_of_inferredFrom`: whatever way values are folded, each is valid under the schema.
-/

namespace JsonShape.Schema

open Shape

theorem admits_of_describes {s : Shape} (hs : s.WellFormed) {v : Json.Value} (h : s.Describes v) :
    s.Admits v := by
  induction s generalizing v with
  | unknown => exact .unknown v
  | scalar k =>
    cases h with
    | scalar hk => exact .scalar hk
  | optional s ih =>
    rw [describes_optional_iff] at h
    exact .optional (ih (wellFormed_optional_iff.1 hs) h)
  | array s ih =>
    cases h with
    | array hvs => exact .array fun u hu => ih (wellFormed_array_iff.1 hs) (hvs u hu)
  | object fs ih =>
    obtain ⟨hd, hfs⟩ := wellFormed_object_iff.1 hs
    cases h with
    | @object _ es _ hfields habsent =>
      refine .object (fun f hf hpresent => ?_) fun f hf u hu => ?_
      · by_cases hes : f.1 ∈ Entries.keys es
        · exact hes
        · have := habsent f.1 f.2 (Entries.get?_of_mem hd hf) hes
          rw [hpresent] at this
          cases this
      · have hdesc : f.2.Describes u :=
          hfields _ (Entries.mem_of_get?_eq_some hu) _ (Entries.get?_of_mem hd hf)
        exact ih f hf (hfs f hf) hdesc
  | union ms ih =>
    obtain ⟨m, hm, hmv⟩ := (describes_union_iff v ms).1 h
    exact .union hm (ih m hm ((wellFormed_union_iff.1 hs).2.2 m hm) hmv)

theorem validates_ofShape {s : Shape} (hs : s.WellFormed) {v : Json.Value} (h : s.Describes v) :
    Validates (ofShape s).toNode v :=
  (validates_ofShape_iff hs v).2 (admits_of_describes hs h)

theorem validates_of_inferredFrom {vs : List Json.Value} {s : Shape} (hvs : ∀ v ∈ vs, v.WellFormed)
    (h : InferredFrom vs s) {v : Json.Value} (hv : v ∈ vs) : Validates (ofShape s).toNode v := by
  obtain ⟨b, hb, rfl⟩ := h.exists_bracketing
  have hleaves : ∀ v ∈ b.leaves, v.WellFormed := fun v hv => hvs v (hb.mem_iff.1 hv)
  have hwf := Bracketing.wellFormed_shape fun v hv => wellFormed_ofValue (hleaves v hv)
  exact validates_ofShape hwf (describes_shape_ofValue hleaves (hb.mem_iff.2 hv))

/-- However values are folded, each of them is valid under the schema of the shape they give; and
folding in shards does give one. Read values repeat no key, from whatever source they are. -/
theorem accepts_samples :
    (∀ (t : Text) (v : Json.Value), Json.read t = .ok v → v.WellFormed) ∧
    (∀ (limit : Nat) (d : Datum) (v : Json.Value), d.toValue? limit = .ok v → v.WellFormed) ∧
    ∀ vs : List Json.Value, (∀ v ∈ vs, v.WellFormed) →
      (∀ s, InferredFrom vs s → ∀ v ∈ vs, Validates (ofShape s).toNode v) ∧
      ∀ (workers : Option Int) (size : Int), 1 ≤ size → (∀ n ∈ workers, 0 < n) →
        ∃ s, (inferSharded vs workers size).result = .ok s ∧
          ∀ v ∈ vs, Validates (ofShape s).toNode v := by
  refine ⟨fun t v h => Json.wellFormed_of_read h, fun limit d v h => Datum.wellFormed_of_toValue? h, ?_⟩
  intro vs hvs
  refine ⟨fun s h v hv => validates_of_inferredFrom hvs h hv, fun workers size hsize hworkers => ?_⟩
  have hok := inferSharded_result_eq_ok vs hsize hworkers
  exact ⟨_, hok, fun v hv => validates_of_inferredFrom hvs (.sharded hok) hv⟩

/-- A key that the first of three objects lacks, so that its field is a union with an optional
member, through an accumulator that merges another. -/
theorem accepts_samples_missing_key :
    let vs : List Json.Value := [.object [], .object [("a", .int 1)], .object [("a", .null)]]
    let g : Gathering :=
      .merge (.observeAll .start [.ok (.object []), .ok (.object [("a", .int 1)])])
        (.observe .start (.object [("a", .null)]))
    (∀ v ∈ vs, v.WellFormed) ∧ g.observed = vs ∧
      (∀ v ∈ vs, Validates (ofShape g.run.shape).toNode v) ∧
      ∃ s, (inferSharded vs (some 1) 2).result = .ok s ∧ ∀ v ∈ vs, Validates (ofShape s).toNode v := by
  intro vs g
  have hscalar : ∀ {v : Json.Value} {k : Scalar}, v.kind = .scalar k → v.WellFormed := .scalar
  have hvs : ∀ v ∈ vs, v.WellFormed := by
    simp [vs, Json.Value.wellFormed_object_iff, Entries.Distinct, Entries.keys,
      hscalar (v := .int 1) rfl, hscalar (v := .null) rfl]
  have hobserved : g.observed = vs := rfl
  obtain ⟨-, -, hall⟩ := accepts_samples
  obtain ⟨hfold, hsharded⟩ := hall vs hvs
  refine ⟨hvs, hobserved, ?_, hsharded (some 1) 2 (by decide) (by simp)⟩
  exact hfold _ (.gathered (by rw [hobserved]))

end JsonShape.Schema
