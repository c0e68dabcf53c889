/-!
# JsonShape.Text.CodePoint

Text as a list of Unicode code points. Unlike `Char`, a `CodePoint` may be a surrogate, because
an escape in a JSON string can name one on its own.

* `CodePoint`: a number below `0x110000`.
* `Text`: the strings of the library; string and character literals coerce into it.
* `Text.ofNat`, `Text.ofInt`: decimal notation.
-/

namespace JsonShape

/-- A Unicode code point, surrogates included. -/
structure CodePoint where
  toNat : Nat
  isLt : toNat < 0x110000
  deriving DecidableEq

namespace CodePoint

theorem ext {c d : CodePoint} (h : c.toNat = d.toNat) : c = d := by
  cases c; cases d; cases h; rfl

theorem toNat_lt_of_char (c : Char) : c.toNat < 0x110000 := by
  have h := c.valid
  simp only [UInt32.isValidChar, Nat.isValidChar] at h
  show c.val.toNat < 0x110000
  omega

def ofChar (c : Char) : CodePoint := ⟨c.toNat, toNat_lt_of_char c⟩

instance : Coe Char CodePoint := ⟨ofChar⟩

instance : Inhabited CodePoint := ⟨ofChar ' '⟩

def space : CodePoint := ofChar ' '

def newline : CodePoint := ofChar '\n'

def carriageReturn : CodePoint := ofChar '\r'

/-- The code point of a number; a number that is none gives the replacement character. -/
def ofNat (n : Nat) : CodePoint := if h : n < 0x110000 then ⟨n, h⟩ else ⟨0xFFFD, by decide⟩

theorem ofNat_toNat (c : CodePoint) : ofNat c.toNat = c := by
  simp [ofNat, c.isLt]

theorem toNat_ofNat {n : Nat} (h : n < 0x110000) : (ofNat n).toNat = n := by
  simp [ofNat, h]

/-- First half of a pair of surrogates. -/
def isHighSurrogate (c : CodePoint) : Bool := 0xD800 ≤ c.toNat && c.toNat ≤ 0xDBFF

/-- Second half of a pair of surrogates. -/
def isLowSurrogate (c : CodePoint) : Bool := 0xDC00 ≤ c.toNat && c.toNat ≤ 0xDFFF

/-- A code point that UTF-8 can hold. -/
def isScalar (c : CodePoint) : Bool := !(c.isHighSurrogate || c.isLowSurrogate)

/-- A surrogate that stands for a byte of its own, one from `0x80` on that is no part of UTF-8. -/
def isLoneByte (c : CodePoint) : Bool := 0xDC80 ≤ c.toNat && c.toNat ≤ 0xDCFF

/-- One of `0` to `9`. -/
def isDigit (c : CodePoint) : Bool := 0x30 ≤ c.toNat && c.toNat ≤ 0x39

/-- One of `a` to `z`. -/
def isLowerLetter (c : CodePoint) : Bool := 0x61 ≤ c.toNat && c.toNat ≤ 0x7A

/-- One of `A` to `Z`. -/
def isUpperLetter (c : CodePoint) : Bool := 0x41 ≤ c.toNat && c.toNat ≤ 0x5A

/-- One of `A` to `Z` and `a` to `z`. -/
def isLetter (c : CodePoint) : Bool := c.isUpperLetter || c.isLowerLetter

/-- The value of a hexadecimal digit. -/
def hexValue? (c : CodePoint) : Option Nat :=
  if c.isDigit then some (c.toNat - 0x30)
  else if 0x61 ≤ c.toNat && c.toNat ≤ 0x66 then some (c.toNat - 0x57)
  else if 0x41 ≤ c.toNat && c.toNat ≤ 0x46 then some (c.toNat - 0x37)
  else none

/-- The lower-case hexadecimal digit of a number below 16. -/
def hexDigit (n : Nat) : CodePoint := if n < 10 then ofNat (0x30 + n) else ofNat (0x57 + n)

end CodePoint

/-- A sequence of code points. -/
abbrev Text := List CodePoint

namespace Text

def ofString (s : String) : Text := s.toList.map CodePoint.ofChar

instance : Coe String Text := ⟨ofString⟩

def dot : CodePoint := '.'

/-- The text as a string. Strings hold no surrogates; the replacement character stands for each. -/
def toString (t : Text) : String :=
  String.ofList (t.map fun c => Char.ofNat (if c.isScalar then c.toNat else 0xFFFD))

/-- Decimal notation of a natural number. -/
def ofNat (n : Nat) : Text := (Nat.toDigits 10 n).map CodePoint.ofChar

/-- Decimal notation of an integer. -/
def ofInt : Int → Text
  | .ofNat n => ofNat n
  | .negSucc n => CodePoint.ofChar '-' :: ofNat (n + 1)

/-- The number that a run of decimal digits denotes. -/
def digitsValue (ds : Text) : Nat := ds.foldl (fun n d => 10 * n + (d.toNat - 0x30)) 0

/-- The last `width` hexadecimal digits of `n`. -/
def hex (n : Nat) : (width : Nat) → Text
  | 0 => []
  | w + 1 => hex (n / 16) w ++ [CodePoint.hexDigit (n % 16)]

/-- The texts in order with `sep` between neighbours. -/
def join (sep : Text) : List Text → Text
  | [] => []
  | t :: ts => t ++ ts.flatMap (sep ++ ·)

theorem join_singleton (sep t : Text) : join sep [t] = t := by
  rw [join, List.flatMap_nil, List.append_nil]

theorem join_cons_cons (sep t u : Text) (ts : List Text) :
    join sep (t :: u :: ts) = t ++ sep ++ join sep (u :: ts) := by
  rw [join, join, List.flatMap_cons, List.append_assoc, List.append_assoc]

/-- Whether `part` occurs in `t`. -/
def hasInfix (part : Text) : Text → Bool
  | [] => part.isEmpty
  | c :: t => part.isPrefixOf (c :: t) || hasInfix part t

/-- The pieces between the separators; there is one more of them than separators. -/
def splitOn (sep : CodePoint) (t : Text) : List Text :=
  t.foldr (fun c pieces =>
    if c = sep then [] :: pieces
    else match pieces with
      | [] => [[c]]
      | p :: ps => (c :: p) :: ps) [[]]

end Text

end JsonShape
