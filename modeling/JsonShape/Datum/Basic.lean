import JsonShape.Decimal.Shortest
import JsonShape.Json.Value
import JsonShape.Text.Integer
import JsonShape.Text.Quoted
import JsonShape.Text.Utf8
/-!
# JsonShape.Datum.Basic

Data that callers hand over in memory. A datum may hold what JSON cannot: tuples, mappings whose
keys are not texts, byte strings, sets, and data of kinds that nothing more is known of.

* `Datum.display`: a datum as people read it, unless it holds an integer with too many digits.
* `Datum.text`: the text form of a key.
* `Datum.ofValue`: a JSON value as a datum.
-/

namespace JsonShape

inductive Datum where
  | null
  | bool (b : Bool)
  | int (n : Int)
  | real (x : Binary64)
  | string (s : Text)
  | list (items : List Datum)
  | tuple (items : List Datum)
  | mapping (entries : List (Datum × Datum))
  | bytes (bs : Bytes)
  | set (items : List Datum)
  /-- Data of any other kind: the kind's name, how the datum is displayed, and its text as a key. -/
  | other (kind shown text : Text)

instance : Inhabited Datum := ⟨.null⟩

namespace Datum

/-- A byte between quotes: itself if it is printable ASCII, else an escape. -/
def escapeByte (quote : CodePoint) (b : UInt8) : Text :=
  let c := CodePoint.ofNat b.toNat
  if c = quote || c = Text.backslash then [Text.backslash, c]
  else if c = '\n' then "\\n"
  else if c = '\r' then "\\r"
  else if c = '\t' then "\\t"
  else if 0x20 ≤ b.toNat && b.toNat < 0x7F then [c]
  else ("\\x" : Text) ++ Text.hex b.toNat 2

/-- A byte string between quotes, after the letter `b`. -/
def displayBytes (bs : Bytes) : Text :=
  let q := Text.quoteFor (bs.map fun b => CodePoint.ofNat b.toNat)
  ("b" : Text) ++ (q :: (bs.flatMap (escapeByte q) ++ [q]))

open Text (TooManyDigits writeInt?)

section Written

variable (limit : Nat)

mutual

def display : Datum → Except TooManyDigits Text
  | .null => .ok "None"
  | .bool true => .ok "True"
  | .bool false => .ok "False"
  | .int n => writeInt? limit n
  | .real x => .ok (Layout.standard.render x)
  | .string s => .ok s.quoted
  | .list items => (displayItems items).map fun ts => "[" ++ Text.join ", " ts ++ "]"
  | .tuple items =>
    (displayItems items).map fun
      | [t] => "(" ++ t ++ ",)"
      | ts => "(" ++ Text.join ", " ts ++ ")"
  | .mapping entries =>
    (displayEntries entries).map fun ts => "\x7b" ++ Text.join ", " ts ++ "\x7d"
  | .bytes bs => .ok (displayBytes bs)
  | .set items =>
    (displayItems items).map fun
      | [] => "set()"
      | ts => "\x7b" ++ Text.join ", " ts ++ "\x7d"
  | .other _ shown _ => .ok shown

def displayItems : List Datum → Except TooManyDigits (List Text)
  | [] => .ok []
  | d :: ds => d.display.bind fun t => (displayItems ds).map (t :: ·)

def displayEntries : List (Datum × Datum) → Except TooManyDigits (List Text)
  | [] => .ok []
  | (k, d) :: es =>
    k.display.bind fun key => d.display.bind fun t =>
      (displayEntries es).map ((key ++ ": " ++ t) :: ·)

end

/-- The text of a datum: a text is its own, what is of another kind has one, and all else is
displayed. -/
def text : Datum → Except TooManyDigits Text
  | .string s => .ok s
  | .other _ _ t => .ok t
  | d => d.display limit

end Written

mutual

def ofValue : Json.Value → Datum
  | .null => .null
  | .bool b => .bool b
  | .int n => .int n
  | .real x => .real x
  | .string s => .string s
  | .array items => .list (ofItems items)
  | .object fields => .mapping (ofFields fields)

def ofItems : List Json.Value → List Datum
  | [] => []
  | v :: vs => ofValue v :: ofItems vs

def ofFields : List (Text × Json.Value) → List (Datum × Datum)
  | [] => []
  | (k, v) :: fs => (.string k, ofValue v) :: ofFields fs

end

end Datum

end JsonShape
