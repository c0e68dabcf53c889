import JsonShape.Decimal.Binary64
import JsonShape.Entries
/-!
# JsonShape.Json.Value

JSON values. Whole numbers are kept exactly and told apart from the others; an object keeps its
keys in first-seen order.
-/

namespace JsonShape.Json

inductive Value where
  | null
  | bool (b : Bool)
  | int (n : Int)
  | real (x : Binary64)
  | string (s : Text)
  | array (items : List Value)
  | object (fields : List (Text × Value))

instance : Inhabited Value := ⟨.null⟩

end JsonShape.Json
