import JsonShape.Text.CodePoint
import JsonShape.Text.Flips
/-!
# JsonShape.Text.Integer

Integers as texts. People write them with digits of any script, single underscores between digits, a
sign in front and blanks around. Both ways there is a limit on the number of digits.

* `Text.toInt?`: the integer that a text denotes.
* `Text.writeInt?`: an integer in decimal notation, unless it has too many digits.
-/

namespace JsonShape

namespace Text

/-- The zeros of the scripts that have decimal digits; the nine others follow each. -/
def digitZeros : List Nat :=
  [0x30, 0x660, 0x6f0, 0x7c0, 0x966, 0x9e6, 0xa66, 0xae6, 0xb66, 0xbe6, 0xc66, 0xce6, 0xd66,
   0xde6, 0xe50, 0xed0, 0xf20, 0x1040, 0x1090, 0x17e0, 0x1810, 0x1946, 0x19d0, 0x1a80, 0x1a90,
   0x1b50, 0x1bb0, 0x1c40, 0x1c50, 0xa620, 0xa8d0, 0xa900, 0xa9d0, 0xa9f0, 0xaa50, 0xabf0,
   0xff10, 0x104a0, 0x10d30, 0x11066, 0x110f0, 0x11136, 0x111d0, 0x112f0, 0x11450, 0x114d0,
   0x11650, 0x116c0, 0x11730, 0x118e0, 0x11950, 0x11c50, 0x11d50, 0x11da0, 0x16a60, 0x16ac0,
   0x16b50, 0x1d7ce, 0x1d7d8, 0x1d7e2, 0x1d7ec, 0x1d7f6, 0x1e140, 0x1e2f0, 0x1e950, 0x1fbf0]

/-- Blank code points, without the separators of files, groups, records and units. -/
def blanks : Flips :=
  [0x9, 0xe, 0x20, 0x21, 0x85, 0x86, 0xa0, 0xa1, 0x1680, 0x1681, 0x2000, 0x200b, 0x2028,
   0x202a, 0x202f, 0x2030, 0x205f, 0x2060, 0x3000, 0x3001]

def isBlank (c : CodePoint) : Bool := blanks.contains c.toNat

def decimalValue? (c : CodePoint) : Option Nat :=
  (digitZeros.find? fun z => z ≤ c.toNat && c.toNat < z + 10).map (c.toNat - ·)

def trimBlanks (t : Text) : Text := ((t.dropWhile isBlank).reverse.dropWhile isBlank).reverse

/-- Digits with single underscores between them; `afterDigit` says whether a digit came last. -/
def readDigits : Text → (afterDigit : Bool) → (value count : Nat) → Option (Nat × Nat)
  | [], afterDigit, value, count => if afterDigit then some (value, count) else none
  | c :: rest, afterDigit, value, count =>
    match decimalValue? c with
    | some d => readDigits rest true (10 * value + d) (count + 1)
    | none => if c = '_' && afterDigit then readDigits rest false value count else none

/-- The greatest number of digits that is read, and that is written unless another limit is set. -/
def integerDigitLimit : Nat := 4300

def toInt? (t : Text) : Option Int :=
  let t := trimBlanks t
  let (negative, ds) : Bool × Text := match t with
    | [] => (false, t)
    | c :: rest => if c = '-' then (true, rest) else if c = '+' then (false, rest) else (false, t)
  match readDigits ds false 0 0 with
  | none => none
  | some (n, count) =>
    if integerDigitLimit < count then none else some (if negative then -(n : Int) else n)

/-- An integer has more digits than the limit lets be written. -/
structure TooManyDigits where
  limit : Nat
  deriving DecidableEq

def TooManyDigits.message (e : TooManyDigits) : Text :=
  "Exceeds the limit (" ++ ofNat e.limit ++
    " digits) for integer string conversion; use sys.set_int_max_str_digits() to increase the limit"

/-- Decimal notation with at most `limit` digits; zero stands for no limit, and the sign does not
count. -/
def writeInt? (limit : Nat) (n : Int) : Except TooManyDigits Text :=
  if limit ≠ 0 ∧ limit < (ofNat n.natAbs).length then .error ⟨limit⟩ else .ok (ofInt n)

end Text

end JsonShape
