import JsonShape.Proofs.Shape.Node
/-!
# JsonShape.Proofs.Shape.Built

What can be made of shapes. A union is made of shapes and an object of pairs, so that there are
lists of members and of fields that nothing makes.

* `Shape.Built`: the shapes that are made, to any depth.
* `Shape.built_iff_wellFormed`: they are the well-formed ones.
* `Shape.reads_back_iff_built`: they are the ones that their nodes give back.
-/

namespace JsonShape.Shape

inductive Built : Shape → Prop where
  | unknown : Built .unknown
  | scalar (k : Scalar) : Built (.scalar k)
  | optional {s : Shape} : Built s → Built (.optional s)
  | array {s : Shape} : Built s → Built (.array s)
  | object {ps : List (Text × Shape)} :
      (∀ p ∈ ps, Built p.2) → Built (.object (Entries.ofPairs ps))
  | union {ss : List Shape} : (∀ s ∈ ss, Built s) → Built (unionOf ss)

theorem wellFormed_of_built {s : Shape} (h : s.Built) : s.WellFormed := by
  induction h with
  | unknown => exact .unknown
  | scalar k => exact .scalar k
  | optional _ ih => exact .optional ih
  | array _ ih => exact .array ih
  | object _ ih => exact wellFormed_object_ofPairs ih
  | union _ ih => exact wellFormed_unionOf ih

/-- Fields and members that are in order already are not changed by making a shape of them. -/
theorem built_of_wellFormed {s : Shape} (h : s.WellFormed) : s.Built := by
  induction s with
  | unknown => exact .unknown
  | scalar k => exact .scalar k
  | optional s ih => exact .optional (ih (wellFormed_optional_iff.1 h))
  | array s ih => exact .array (ih (wellFormed_array_iff.1 h))
  | object fs ih =>
    obtain ⟨hd, hfs⟩ := wellFormed_object_iff.1 h
    rw [← Entries.ofPairs_of_distinct hd]
    exact .object fun f hf => ih f hf (hfs f hf)
  | union ms ih =>
    obtain ⟨-, -, hms⟩ := wellFormed_union_iff.1 h
    rw [← unionOf_members h]
    exact .union fun m hm => ih m hm (hms m hm)

theorem built_iff_wellFormed {s : Shape} : s.Built ↔ s.WellFormed :=
  ⟨wellFormed_of_built, built_of_wellFormed⟩

/-- Reading the node of a shape gives that very shape, with its fields and members in their order at
every depth, just if the shape can be made at all. -/
theorem reads_back_iff_built (s : Shape) : ofNode? s.toNode = .ok s ↔ s.Built := by
  rw [built_iff_wellFormed]
  constructor
  · intro h
    exact wellFormed_of_ofNode? s.toNode h
  · intro h
    exact ofNode?_toNode h

end JsonShape.Shape
