import JsonShape.Datum.Basic
import JsonShape.Shape.Display
import JsonShape.Shape.Union
/-!
# JsonShape.Shape.Node

Shapes as JSON nodes, the format of shape files. A kind without parts is its name; any other is an
object with one field, named after the kind.

* `Shape.toNode`: the node of a shape.
* `Shape.ofNode?`: the shape of a node, or the first fault in it.
-/

namespace JsonShape

namespace Shape

/-- Why a node denotes no shape. -/
inductive NodeFault where
  | unknownKind (name : Text)
  | notANode (v : Json.Value)
  | membersNotAList (v : Json.Value)
  | fieldsNotAMapping (v : Json.Value)

/-- A complaint with the node that it is about. A node that cannot be displayed is itself complained
about. -/
def about (complaint : Text) (v : Json.Value) : Text :=
  match (Datum.ofValue v).display Text.integerDigitLimit with
  | .error e => e.message
  | .ok shown => complaint ++ shown

def NodeFault.message : NodeFault → Text
  | .unknownKind name => "Unknown shape kind '" ++ name ++ "'"
  | .notANode v => about "Invalid shape node: " v
  | .membersNotAList v => about "Union members must be a list, got " v
  | .fieldsNotAMapping v => about "Object fields must be a mapping, got " v

mutual

def toNode : Shape → Json.Value
  | .unknown => .string "unknown"
  | .scalar k => .string k.name
  | .optional s => .object [("optional", s.toNode)]
  | .array s => .object [("array", s.toNode)]
  | .object fs => .object [("object", .object (toFieldNodes fs))]
  | .union ms => .object [("union", .array (toMemberNodes ms))]

def toFieldNodes : List (Text × Shape) → List (Text × Json.Value)
  | [] => []
  | (k, s) :: fs => (k, s.toNode) :: toFieldNodes fs

def toMemberNodes : List Shape → List Json.Value
  | [] => []
  | m :: ms => m.toNode :: toMemberNodes ms

end

/-- The shape that a name alone denotes. -/
def ofName? (name : Text) : Option Shape :=
  if name = "unknown" then some .unknown
  else if name = "null" then some (.scalar .null)
  else if name = "number" then some (.scalar .number)
  else if name = "bool" then some (.scalar .bool)
  else if name = "string" then some (.scalar .string)
  else none

mutual

def ofNode? : Json.Value → Except NodeFault Shape
  | .string name =>
    match ofName? name with
    | some s => .ok s
    | none => .error (.unknownKind name)
  | .object [(kind, body)] =>
    if kind = "optional" then
      match ofNode? body with
      | .error e => .error e
      | .ok s => .ok (.optional s)
    else if kind = "array" then
      match ofNode? body with
      | .error e => .error e
      | .ok s => .ok (.array s)
    else if kind = "union" then
      match body with
      | .array items =>
        match ofMemberNodes? items with
        | .error e => .error e
        | .ok ms => .ok (unionOf ms)
      | v => .error (.membersNotAList v)
    else if kind = "object" then
      match body with
      | .object fields =>
        match ofFieldNodes? fields with
        | .error e => .error e
        | .ok fs => .ok (.object (Entries.ofPairs fs))
      | v => .error (.fieldsNotAMapping v)
    else .error (.unknownKind kind)
  | v => .error (.notANode v)

def ofMemberNodes? : List Json.Value → Except NodeFault (List Shape)
  | [] => .ok []
  | v :: vs =>
    match ofNode? v with
    | .error e => .error e
    | .ok m =>
      match ofMemberNodes? vs with
      | .error e => .error e
      | .ok ms => .ok (m :: ms)

def ofFieldNodes? : List (Text × Json.Value) → Except NodeFault (List (Text × Shape))
  | [] => .ok []
  | (k, v) :: rest =>
    match ofNode? v with
    | .error e => .error e
    | .ok s =>
      match ofFieldNodes? rest with
      | .error e => .error e
      | .ok fs => .ok ((k, s) :: fs)

end

end Shape

end JsonShape
