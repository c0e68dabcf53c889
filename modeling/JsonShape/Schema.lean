import JsonShape.Shape.Display
import JsonShape.Shape.Optional
import JsonShape.Json.Value
/-!
# JsonShape.Schema

JSON Schema for shapes.

* `Schema`: the schemas that shapes give rise to.
* `Schema.ofShape`: a property is required unless its shape may be absent; elsewhere an optional
  shape gives the schema of what it holds when present.
* `Schema.toNode`, `Schema.document`: a schema as JSON, alone and as a document with a title.
-/

namespace JsonShape

inductive Schema where
  | any
  | scalar (k : Scalar)
  | array (items : Schema)
  | object (properties : List (Text × Schema)) (required : List Text)
  | anyOf (branches : List Schema)

namespace Schema

/-- A schema's name for a kind without parts. -/
def scalarType : Scalar → Text
  | .null => "null"
  | .number => "number"
  | .bool => "boolean"
  | .string => "string"

/-- The keys of the fields that are never absent. -/
def requiredKeys (fields : List (Text × Shape)) : List Text :=
  (fields.filter fun f => !f.2.strip.optional).map Prod.fst

def ofShape : Shape → Schema
  | .unknown => .any
  | .scalar k => .scalar k
  | .optional s => ofShape s
  | .array s => .array (ofShape s)
  | .object fs =>
    .object (fs.attach.map fun ⟨f, _⟩ => (f.1, ofShape f.2.strip.present)) (requiredKeys fs)
  | .union ms =>
    if _ : (Shape.union ms).strip.present.isUnion = true then
      .anyOf ((Shape.union ms).strip.present.alternatives.attach.map fun ⟨n, _⟩ => ofShape n)
    else ofShape (Shape.union ms).strip.present
termination_by s => s.size
decreasing_by
  · simp [Shape.size]
  · simp [Shape.size]
  · rename_i hf
    have := Shape.size_le_sizeFields hf
    have := Shape.size_strip_le f.2
    simp only [Shape.size]
    omega
  · rename_i hu hn
    have := Shape.size_lt_of_mem_alternatives hu hn
    have := Shape.size_strip_le (.union ms)
    omega
  · rename_i hu
    rcases Shape.strip_eq_or_size_lt (.union ms) with h | h
    · rw [h] at hu; exact absurd rfl hu
    · exact h

theorem ofShape_object (fs : List (Text × Shape)) :
    ofShape (.object fs) =
      .object (fs.map fun f => (f.1, ofShape f.2.strip.present)) (requiredKeys fs) := by
  rw [ofShape]
  exact congrArg (Schema.object · _)
    (List.attach_map_val (l := fs) (f := fun f => (f.1, ofShape f.2.strip.present)))

theorem ofShape_union_of_isUnion {ms : List Shape}
    (h : (Shape.union ms).strip.present.isUnion = true) :
    ofShape (.union ms) = .anyOf ((Shape.union ms).strip.present.alternatives.map ofShape) := by
  rw [ofShape, dif_pos h]
  exact congrArg Schema.anyOf (List.attach_map_val (f := ofShape))

theorem ofShape_union_of_not_isUnion {ms : List Shape}
    (h : (Shape.union ms).strip.present.isUnion = false) :
    ofShape (.union ms) = ofShape (Shape.union ms).strip.present := by
  rw [ofShape, dif_neg (by simp [h])]

mutual

def toNode : Schema → Json.Value
  | .any => .object []
  | .scalar k => .object [("type", .string (scalarType k))]
  | .array s => .object [("type", .string "array"), ("items", s.toNode)]
  | .object ps required =>
    .object (("type", .string "object") :: ("properties", .object (propertyNodes ps)) ::
      if required.isEmpty then [] else [("required", .array (required.map .string))])
  | .anyOf branches => .object [("anyOf", .array (branchNodes branches))]

def propertyNodes : List (Text × Schema) → List (Text × Json.Value)
  | [] => []
  | (k, s) :: ps => (k, s.toNode) :: propertyNodes ps

def branchNodes : List Schema → List Json.Value
  | [] => []
  | s :: ss => s.toNode :: branchNodes ss

end

/-- The dialect that documents name. -/
def dialect : Text := "https://json-schema.org/draft/2020-12/schema"

/-- The title of a document that is given none. -/
def standardTitle : Text := "Document"

def fieldsOf : Json.Value → List (Text × Json.Value)
  | .object fields => fields
  | _ => []

/-- A title as JSON; one that is left out is an empty array. -/
def titleNode : Option Text → Json.Value
  | some t => .string t
  | none => .array []

/-- The schema of a shape as a document of its own. -/
def document (s : Shape) (title : Option Text) : Json.Value :=
  .object (("$schema", .string dialect) :: ("title", titleNode title) ::
    fieldsOf (ofShape s).toNode)

end Schema

end JsonShape
