import JsonShape.Shape.Basic
import JsonShape.Text.Quoted
/-!
# JsonShape.Shape.Display

Shapes as people read them, and the names of their kinds.
-/

namespace JsonShape

def Scalar.name : Scalar → Text
  | .null => "null"
  | .number => "number"
  | .bool => "bool"
  | .string => "string"

def Scalar.display : Scalar → Text
  | .null => "Null"
  | .number => "Number"
  | .bool => "Bool"
  | .string => "String"

namespace Shape

/-- The name of a shape's kind. -/
def kind : Shape → Text
  | .unknown => "unknown"
  | .scalar k => k.name
  | .optional _ => "optional"
  | .array _ => "array"
  | .object _ => "object"
  | .union _ => "union"

/-- What is answered when a part of a shape is assigned to. -/
def immutability (s : Shape) : Text :=
  (match s with
    | .unknown => ("Unknown" : Text)
    | .scalar k => k.display
    | .optional _ => "Optional"
    | .array _ => "Array"
    | .object _ => "Object"
    | .union _ => "Union") ++ "Shape is immutable"

mutual

def display : Shape → Text
  | .unknown => "Unknown"
  | .scalar k => k.display
  | .optional s => "Optional(" ++ s.display ++ ")"
  | .array s => "Array(" ++ s.display ++ ")"
  | .object fs => "Object(\x7b" ++ Text.join ", " (displayFields fs) ++ "\x7d)"
  | .union ms => "Union(\x7b" ++ Text.join ", " (displayMembers ms) ++ "\x7d)"

def displayFields : List (Text × Shape) → List Text
  | [] => []
  | (k, s) :: fs => (k.quoted ++ ": " ++ s.display) :: displayFields fs

def displayMembers : List Shape → List Text
  | [] => []
  | m :: ms => m.display :: displayMembers ms

end

end Shape

end JsonShape
