import JsonShape.Datum.ToValue
import JsonShape.Shape.Join
/-!
# JsonShape.Inference.Fold

Shapes of values.

* `Shape.ofValue`: the shape of one value; the items of an array are joined.
* `Shape.infer`: the shape of a list of values, joined from the left.
* `Shape.ofDatum?`: the shape of a datum that reads as JSON, under a limit on the digits of integers
  that are written.
-/

namespace JsonShape

namespace Shape

mutual

def ofValue : Json.Value → Shape
  | .null => .scalar .null
  | .bool _ => .scalar .bool
  | .int _ => .scalar .number
  | .real _ => .scalar .number
  | .string _ => .scalar .string
  | .array items => .array (joinAll (ofItems items))
  | .object fields => .object (ofFields fields)

def ofItems : List Json.Value → List Shape
  | [] => []
  | v :: vs => ofValue v :: ofItems vs

def ofFields : List (Text × Json.Value) → List (Text × Shape)
  | [] => []
  | (k, v) :: fs => (k, ofValue v) :: ofFields fs

end

def infer (vs : List Json.Value) : Shape := joinAll (vs.map ofValue)

def ofDatum? (limit : Nat) (d : Datum) : Except Datum.Fault Shape :=
  match d.toValue? limit with
  | .error f => .error f
  | .ok v => .ok (ofValue v)

end Shape

end JsonShape
