import JsonShape.Json.StringLiteral
import JsonShape.Json.Value
/-!
# JsonShape.Json.Reader

Reading JSON text. Beside the standard grammar the literals `NaN`, `Infinity` and `-Infinity` are
values, and control characters must be escaped in strings.

* `Json.read`: the value of a whole text.
* `Json.Fault`: why and where a text is refused; `Json.ReadError` adds the limit on the length of
  whole numbers.
-/

namespace JsonShape.Json

inductive Cause where
  | expectedValue
  | expectedName
  | expectedColon
  | expectedComma
  | extraData
  | byteOrderMark
  | string (f : StringLiteral.Fault)
  deriving DecidableEq

def Cause.message : Cause → Text
  | .expectedValue => "Expecting value"
  | .expectedName => "Expecting property name enclosed in double quotes"
  | .expectedColon => "Expecting ':' delimiter"
  | .expectedComma => "Expecting ',' delimiter"
  | .extraData => "Extra data"
  | .byteOrderMark => "Unexpected UTF-8 BOM (decode using utf-8-sig)"
  | .string .unterminated => "Unterminated string starting at"
  | .string .controlCharacter => "Invalid control character at"
  | .string .badEscape => "Invalid \\escape"
  | .string .badUnicodeEscape => "Invalid \\uXXXX escape"

/-- A place in a text: the characters before it, and its line and column, both from 1. -/
structure Position where
  offset : Nat
  line : Nat
  column : Nat
  deriving DecidableEq

/-- The place behind the first `offset` characters. Only a line feed ends a line. -/
def Position.ofOffset (t : Text) (offset : Nat) : Position where
  offset := offset
  line := (t.take offset).count .newline + 1
  column := ((t.take offset).reverse.takeWhile (· ≠ .newline)).length + 1

structure Fault where
  cause : Cause
  position : Position
  deriving DecidableEq

/-- The cause and the place, as one line. -/
def Fault.message (f : Fault) : Text :=
  f.cause.message ++ ": line " ++ Text.ofNat f.position.line ++ " column " ++
    Text.ofNat f.position.column ++ " (char " ++ Text.ofNat f.position.offset ++ ")"

inductive ReadError where
  | malformed (f : Fault)
  | tooManyDigits (count : Nat)
  deriving DecidableEq

/-- The greatest number of digits of a whole number. -/
def digitLimit : Nat := 4300

def ReadError.message : ReadError → Text
  | .malformed f => f.message
  | .tooManyDigits n =>
    "Exceeds the limit (" ++ Text.ofNat digitLimit ++
      " digits) for integer string conversion: value has " ++ Text.ofNat n ++
      " digits; use sys.set_int_max_str_digits() to increase the limit"

/-- What ends a read early; a cause comes with the text that begins at its place. -/
inductive Stop where
  | fault (cause : Cause) (rest : Text)
  | tooManyDigits (count : Nat)

def isSpace (c : CodePoint) : Bool := c = ' ' || c = '\t' || c = '\n' || c = '\r'

def skipSpace (t : Text) : Text := t.dropWhile isSpace

/-- The parts of a number: sign, digits before the point, digits behind it, and the exponent. -/
structure Numeral where
  negative : Bool
  whole : Text
  fraction : Text
  exponent : Option Int

namespace Numeral

/-- Splits off the longest run of digits. -/
def digits (t : Text) : Text × Text := (t.takeWhile CodePoint.isDigit, t.dropWhile CodePoint.isDigit)

/-- Digits before the point: a zero, or a run that does not begin with one. -/
def scanWhole (t : Text) : Option (Text × Text) :=
  match t with
  | [] => none
  | c :: rest =>
    if c = '0' then some ([c], rest)
    else if c.isDigit then some (digits t)
    else none

/-- A point with at least one digit behind it, or nothing. -/
def scanFraction (t : Text) : Text × Text :=
  match t with
  | [] => ([], t)
  | c :: rest =>
    if c = '.' then
      match digits rest with
      | ([], _) => ([], t)
      | r => r
    else ([], t)

/-- An exponent with at least one digit, or nothing. -/
def scanExponent (t : Text) : Option Int × Text :=
  match t with
  | [] => (none, t)
  | c :: rest =>
    if c = 'e' || c = 'E' then
      let (negative, ds) : Bool × Text := match rest with
        | [] => (false, rest)
        | s :: more => if s = '-' then (true, more) else if s = '+' then (false, more) else (false, rest)
      match digits ds with
      | ([], _) => (none, t)
      | (ds, rest) =>
        let n : Int := Text.digitsValue ds
        (some (if negative then -n else n), rest)
    else (none, t)

/-- The longest numeral that a text begins with. -/
def scan (t : Text) : Option (Numeral × Text) :=
  let (negative, t) : Bool × Text := match t with
    | [] => (false, t)
    | c :: rest => if c = '-' then (true, rest) else (false, t)
  match scanWhole t with
  | none => none
  | some (whole, t) =>
    let (fraction, t) := scanFraction t
    let (exponent, t) := scanExponent t
    some (⟨negative, whole, fraction, exponent⟩, t)

/-- A numeral without fraction and exponent is a whole number; others are rounded. -/
def value (n : Numeral) : Except Nat Value :=
  if n.fraction.isEmpty && n.exponent.isNone then
    if digitLimit < n.whole.length then .error n.whole.length
    else
      let v : Int := Text.digitsValue n.whole
      .ok (.int (if n.negative then -v else v))
  else
    .ok (.real (Binary64.ofDecimal n.negative (Text.digitsValue (n.whole ++ n.fraction))
      (n.exponent.getD 0 - n.fraction.length)))

end Numeral

/-- The words that are values, each with its value. -/
def words : List (Text × Value) :=
  [("null", .null), ("true", .bool true), ("false", .bool false), ("NaN", .real .nan),
    ("Infinity", .real (.infinity false)), ("-Infinity", .real (.infinity true))]

/-- A word or a number. -/
def readAtom (t : Text) : Except Stop (Value × Text) :=
  match words.find? fun w => w.1.isPrefixOf t with
  | some (w, v) => .ok (v, t.drop w.length)
  | none =>
    match Numeral.scan t with
    | none => .error (.fault .expectedValue t)
    | some (n, rest) =>
      match n.value with
      | .error count => .error (.tooManyDigits count)
      | .ok v => .ok (v, rest)

def readString (t : Text) : Except Stop (Text × Text) :=
  match StringLiteral.scan t with
  | .error (f, here) => .error (.fault (.string f) here)
  | .ok r => .ok r

mutual

/-- Reads the value that a text begins with. The first argument bounds the calls. -/
def readValue : Nat → Text → Except Stop (Value × Text)
  | 0, t => .error (.fault .expectedValue t)
  | _ + 1, [] => .error (.fault .expectedValue [])
  | n + 1, c :: rest =>
    if c = '"' then
      match readString (c :: rest) with
      | .error e => .error e
      | .ok (s, rest) => .ok (.string s, rest)
    else if c = '[' then
      match skipSpace rest with
      | [] => .error (.fault .expectedValue [])
      | d :: more =>
        if d = ']' then .ok (.array [], more)
        else match readItems n (d :: more) with
          | .error e => .error e
          | .ok (vs, rest) => .ok (.array vs, rest)
    else if c = '{' then
      match skipSpace rest with
      | [] => .error (.fault .expectedName [])
      | d :: more =>
        if d = '}' then .ok (.object [], more)
        else match readFields n (d :: more) with
          | .error e => .error e
          | .ok (fs, rest) => .ok (.object (Entries.ofPairs fs), rest)
    else readAtom (c :: rest)

/-- Reads the items of an array from the first one to behind the closing bracket. -/
def readItems : Nat → Text → Except Stop (List Value × Text)
  | 0, t => .error (.fault .expectedValue t)
  | n + 1, t =>
    match readValue n t with
    | .error e => .error e
    | .ok (v, rest) =>
      match skipSpace rest with
      | [] => .error (.fault .expectedComma [])
      | c :: rest =>
        if c = ']' then .ok ([v], rest)
        else if c = ',' then
          match readItems n (skipSpace rest) with
          | .error e => .error e
          | .ok (vs, rest) => .ok (v :: vs, rest)
        else .error (.fault .expectedComma (c :: rest))

/-- Reads the fields of an object from the first name to behind the closing brace. -/
def readFields : Nat → Text → Except Stop (List (Text × Value) × Text)
  | 0, t => .error (.fault .expectedName t)
  | _ + 1, [] => .error (.fault .expectedName [])
  | n + 1, c :: rest =>
    if c = '"' then
      match readString (c :: rest) with
      | .error e => .error e
      | .ok (k, rest) =>
        match skipSpace rest with
        | [] => .error (.fault .expectedColon [])
        | c :: rest =>
          if c = ':' then
            match readValue n (skipSpace rest) with
            | .error e => .error e
            | .ok (v, rest) =>
              match skipSpace rest with
              | [] => .error (.fault .expectedComma [])
              | c :: rest =>
                if c = '}' then .ok ([(k, v)], rest)
                else if c = ',' then
                  match readFields n (skipSpace rest) with
                  | .error e => .error e
                  | .ok (fs, rest) => .ok ((k, v) :: fs, rest)
                else .error (.fault .expectedComma (c :: rest))
          else .error (.fault .expectedColon (c :: rest))
    else .error (.fault .expectedName (c :: rest))

end

/-- Calls enough for any text of this length: each of them, or the next one, takes a character. -/
def callBound (t : Text) : Nat := 2 * t.length + 2

/-- The only value of a text, before places are worked out. -/
def readWhole (t : Text) : Except Stop Value :=
  if t.head? = some (CodePoint.ofNat 0xFEFF) then .error (.fault .byteOrderMark t)
  else match readValue (callBound t) (skipSpace t) with
    | .error e => .error e
    | .ok (v, rest) =>
      match skipSpace rest with
      | [] => .ok v
      | c :: rest => .error (.fault .extraData (c :: rest))

/-- Names the place where a read of `t` stopped. -/
def Stop.toError (t : Text) : Stop → ReadError
  | .fault cause rest => .malformed ⟨cause, .ofOffset t (t.length - rest.length)⟩
  | .tooManyDigits n => .tooManyDigits n

/-- The value of a text that holds exactly one. -/
def read (t : Text) : Except ReadError Value :=
  match readWhole t with
  | .error e => .error (e.toError t)
  | .ok v => .ok v

end JsonShape.Json
