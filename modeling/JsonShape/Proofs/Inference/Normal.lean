import JsonShape.Proofs.Inference.Bracketing
import JsonShape.Proofs.Json.Value
import JsonShape.Proofs.TypeScript.Definite
import JsonShape.Schema
/-!
# JsonShape.Proofs.Inference.Normal

Inferred shapes are normal, and what is emitted for them shows it.

* `Shape.normal_ofValue`, `Shape.normal_shape`: shapes of values, and joins of normal shapes in any
  order.
* `Schema.branching_ofShape`: the schema of a normal shape has no alternative that stands alone.
* `Shape.inferred_normal`: so it is for whatever is inferred, and no type of it goes on with
  `undefined`.
-/

namespace JsonShape

namespace Shape

/-! ## Inferring -/

theorem normal_shape {α : Type} {f : α → Shape} {p : Position} {b : Bracketing α}
    (hf : ∀ a ∈ b.leaves, Normal p (f a)) : b.shape f = .unknown ∨ Normal p (b.shape f) := by
  induction b with
  | none => exact .inl rfl
  | leaf a => exact .inr (hf a List.mem_cons_self)
  | node l r ihl ihr =>
    obtain ⟨hl, hr⟩ := List.forall_mem_append.1 hf
    rw [Bracketing.shape]
    rcases ihl hl with hl | hl
    · rw [hl, unknown_join]
      exact ihr hr
    · rcases ihr hr with hr | hr
      · rw [hr, join_unknown]
        exact .inr hl
      · exact .inr (normal_join hl hr)

theorem normal_ofValue {v : Json.Value} (hv : v.WellFormed) : Normal .item (ofValue v) := by
  induction v with
  | array vs ih =>
    have hvs := Json.Value.wellFormed_array_iff.1 hv
    have hitems : ∀ v ∈ (Bracketing.left vs).leaves, Normal .item (ofValue v) := by
      rw [Bracketing.leaves_left]
      exact fun v hmem => ih v hmem (hvs v hmem)
    have hinfer := normal_shape hitems
    rw [Bracketing.shape_left_ofValue] at hinfer
    rw [ofValue_array]
    rcases hinfer with h | h
    · rw [h]
      exact .emptyArray
    · exact .array h
  | object es ih =>
    obtain ⟨hd, hes⟩ := Json.Value.wellFormed_object_iff.1 hv
    rw [ofValue_object]
    refine .object ?_ fun f hf => ?_
    · rwa [Entries.Distinct, keys_ofFields]
    · rw [ofFields_eq_map] at hf
      obtain ⟨e, he, rfl⟩ := List.mem_map.1 hf
      exact (ih e he (hes e he)).field
  | _ => exact .scalar _

theorem InferredFrom.normal {vs : List Json.Value} {s : Shape} (hvs : ∀ v ∈ vs, v.WellFormed)
    (h : InferredFrom vs s) : s = .unknown ∨ Normal .item s := by
  obtain ⟨b, hleaves, rfl⟩ := h.exists_bracketing
  exact normal_shape fun v hv => normal_ofValue (hvs v (hleaves.mem_iff.1 hv))

end Shape

/-! ## Schemas -/

namespace Schema

open Shape (Normal)

/-- Wherever a schema offers a choice, it is one between two branches at least. -/
inductive Branching : Schema → Prop where
  | any : Branching .any
  | scalar (k : Scalar) : Branching (.scalar k)
  | array {s : Schema} : Branching s → Branching (.array s)
  | object {ps : List (Text × Schema)} {required : List Text} :
      (∀ p ∈ ps, Branching p.2) → Branching (.object ps required)
  | anyOf {branches : List Schema} : 2 ≤ branches.length → (∀ s ∈ branches, Branching s) →
      Branching (.anyOf branches)

theorem branching_ofShape {s : Shape} (hs : s = .unknown ∨ Normal .field s) :
    (ofShape s).Branching := by
  -- Stripping gives shapes that are not parts of the shape, but smaller ones.
  induction hn : s.size using Nat.strongRecOn generalizing s with
  | ind n ih =>
    subst hn
    rcases hs with rfl | hs
    · rw [ofShape]
      exact .any
    cases hs with
    | scalar k =>
      rw [ofShape]
      exact .scalar k
    | @optional s _ hs =>
      rw [ofShape]
      exact ih s.size (by simp [Shape.size]) (.inr hs) rfl
    | emptyArray =>
      rw [ofShape, ofShape]
      exact .array .any
    | @array _ s hs =>
      rw [ofShape]
      exact .array (ih s.size (by simp [Shape.size]) (.inr hs.field) rfl)
    | @object _ fs _ hfs =>
      rw [ofShape_object]
      refine .object (List.forall_mem_map.2 fun f hf => ?_)
      have hsize : f.2.strip.present.size < (Shape.object fs).size := by
        have := Shape.size_le_sizeFields hf
        have := f.2.size_strip_le
        simp only [Shape.size]
        omega
      exact ih _ hsize (.inr (Shape.normal_strip (hfs f hf)).field) rfl
    | @union _ ms hlen hunion hpairwise hms =>
      have hpresent := Shape.normal_strip (.union hlen hunion hpairwise hms)
      cases hu : (Shape.union ms).strip.present.isUnion with
      | true =>
        rw [ofShape_union_of_isUnion hu]
        refine .anyOf ?_ (List.forall_mem_map.2 fun m hm => ?_)
        · rw [List.length_map]
          exact hpresent.two_le_length hu
        · have hsize : m.size < (Shape.union ms).size := by
            have := Shape.size_lt_of_mem_alternatives hu hm
            have := (Shape.union ms).size_strip_le
            omega
          exact ih _ hsize (.inr (hpresent.of_mem_alternatives hm).field) rfl
      | false =>
        have hsize : (Shape.union ms).strip.present.size < (Shape.union ms).size := by
          rcases Shape.strip_eq_or_size_lt (.union ms) with h | h
          · rw [h] at hu
            cases hu
          · exact h
        rw [ofShape_union_of_not_isUnion hu]
        exact ih _ hsize (.inr hpresent.field) rfl

end Schema

namespace Shape

/-- However values are folded, the shape is that of nothing or a normal one. In its declarations no
type offers `undefined` as an alternative, and in its schema every choice is between two or more. -/
theorem inferred_normal {vs : List Json.Value} {s : Shape} (hvs : ∀ v ∈ vs, v.WellFormed)
    (h : InferredFrom vs s) :
    (s = .unknown ∨ Normal .item s) ∧
    (∀ rootName source, ∀ t ∈ (TypeScript.generate s rootName source).types,
      ¬TypeScript.undefinedMark <:+: t) ∧
    (Schema.ofShape s).Branching := by
  have hs := h.normal hvs
  refine ⟨hs, fun rootName source t ht => ?_, Schema.branching_ofShape (hs.imp_right Normal.field)⟩
  exact (TypeScript.definite_of_mem_types hs ht).not_infix_undefinedMark

/-- A key that is missing from the first of three objects and has two kinds of values in the others,
through an accumulator that merges another. -/
theorem inferred_normal_missing_key :
    let vs : List Json.Value := [.object [], .object [("a", .int 1)], .object [("a", .null)]]
    let g : Gathering :=
      .merge (.observeAll .start [.ok (.object []), .ok (.object [("a", .int 1)])])
        (.observe .start (.object [("a", .null)]))
    (∀ v ∈ vs, v.WellFormed) ∧ InferredFrom vs g.run.shape ∧ Normal .item g.run.shape ∧
      (Schema.ofShape g.run.shape).Branching := by
  intro vs g
  have hscalar : ∀ {v : Json.Value} {k : Scalar}, v.kind = .scalar k → v.WellFormed := .scalar
  have hvs : ∀ v ∈ vs, v.WellFormed := by
    simp [vs, Json.Value.wellFormed_object_iff, Entries.Distinct, Entries.keys,
      hscalar (v := .int 1) rfl, hscalar (v := .null) rfl]
  have hobserved : g.observed = vs := rfl
  have hinferred : InferredFrom vs g.run.shape := .gathered (by rw [hobserved])
  obtain ⟨hnormal, -, hbranching⟩ := inferred_normal hvs hinferred
  refine ⟨hvs, hinferred, hnormal.resolve_left ?_, hbranching⟩
  simp [g, Gathering.run, Accumulator.addAll, Accumulator.add, Accumulator.observe,
    Accumulator.merge, Accumulator.empty, ofValue, ofFields, join, joinLeft]

end Shape

end JsonShape
