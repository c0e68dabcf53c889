import JsonShape.Datum.Slots
/-!
# JsonShape.Datum.ToValue

Data read as JSON. Tuples are arrays, and a mapping is an object whose names are the text forms of
its keys; byte strings, sets and data of unknown kinds have no reading.

* `Datum.toValue?`: the JSON value of a datum, or why it has none.
* `Datum.Fault`: a part that JSON has no value for, or an integer with too many digits where a text is
  needed.
-/

namespace JsonShape

namespace Datum

open Text (TooManyDigits)

/-- Why a datum has no JSON value: a part is foreign, which is reported with how it is displayed, or
the text of a key or of that part cannot be written. -/
inductive Fault where
  | foreign (d : Datum) (shown : Text)
  | tooManyDigits (e : TooManyDigits)

def Fault.message : Fault → Text
  | .foreign d shown => "Cannot infer a shape for " ++ d.kind ++ " value " ++ shown
  | .tooManyDigits e => e.message

section Limit

variable (limit : Nat)

/-- The report of a foreign datum. -/
def refuse (d : Datum) : Fault :=
  match d.display limit with
  | .error e => .tooManyDigits e
  | .ok shown => .foreign d shown

mutual

/-- The text of each key is made before its value is read. -/
def toValue? : Datum → Except Fault Json.Value
  | .null => .ok .null
  | .bool b => .ok (.bool b)
  | .int n => .ok (.int n)
  | .real x => .ok (.real x)
  | .string s => .ok (.string s)
  | .list items =>
    match toValues? items with
    | .error f => .error f
    | .ok vs => .ok (.array vs)
  | .tuple items =>
    match toValues? items with
    | .error f => .error f
    | .ok vs => .ok (.array vs)
  | .mapping entries =>
    match toFields? entries with
    | .error f => .error f
    | .ok fs => .ok (.object (Entries.ofPairs fs))
  | .bytes bs => .error ((Datum.bytes bs).refuse limit)
  | .set items => .error ((Datum.set items).refuse limit)
  | .other kind shown text => .error ((Datum.other kind shown text).refuse limit)

def toValues? : List Datum → Except Fault (List Json.Value)
  | [] => .ok []
  | d :: ds =>
    match toValue? d with
    | .error f => .error f
    | .ok v =>
      match toValues? ds with
      | .error f => .error f
      | .ok vs => .ok (v :: vs)

def toFields? : List (Datum × Datum) → Except Fault (List (Text × Json.Value))
  | [] => .ok []
  | (k, d) :: es =>
    match k.text limit with
    | .error e => .error (.tooManyDigits e)
    | .ok key =>
      match toValue? d with
      | .error f => .error f
      | .ok v =>
        match toFields? es with
        | .error f => .error f
        | .ok fs => .ok ((key, v) :: fs)

end

end Limit

end Datum

end JsonShape
