import JsonShape.Text.CodePoint
/-!
# JsonShape.Json.StringLiteral

String literals of JSON text.

* `StringLiteral.scan`: reads a literal from behind its opening quote.
* `StringLiteral.write`: the literal of a text, in ASCII.

Escapes above `U+FFFF` are written as two surrogates. The reader joins two escaped surrogates that
make a pair; any other surrogate stands for itself.
-/

namespace JsonShape.Json

namespace StringLiteral

inductive Fault where
  | unterminated
  | controlCharacter
  | badEscape
  | badUnicodeEscape
  deriving DecidableEq

/-- A part of a literal's body: a character that stands for itself, or an escaped UTF-16 unit. -/
inductive Piece where
  | plain (c : CodePoint)
  | unit (n : Nat)

/-- The code point that two surrogates make together. -/
def pair (high low : Nat) : CodePoint :=
  CodePoint.ofNat (0x10000 + (high - 0xD800) * 0x400 + (low - 0xDC00))

def isHigh (n : Nat) : Bool := 0xD800 ≤ n && n ≤ 0xDBFF

def isLow (n : Nat) : Bool := 0xDC00 ≤ n && n ≤ 0xDFFF

/-- Puts a piece in front of those already assembled, given with the unit they begin with. -/
def assembleStep (p : Piece) (next : Option Nat × Text) : Option Nat × Text :=
  match p, next with
  | .plain c, (_, t) => (none, c :: t)
  | .unit n, (some m, t) =>
    if isHigh n && isLow m then (none, pair n m :: t.tail) else (some n, CodePoint.ofNat n :: t)
  | .unit n, (none, t) => (some n, CodePoint.ofNat n :: t)

/-- The text of a literal's pieces. -/
def assemble (ps : List Piece) : Text := (ps.foldr assembleStep (none, [])).2

/-- The character that a letter after a backslash stands for. -/
def shortEscape? (c : CodePoint) : Option CodePoint :=
  if c = '"' then some '"'
  else if c = '\\' then some '\\'
  else if c = '/' then some '/'
  else if c = 'b' then some (CodePoint.ofNat 8)
  else if c = 'f' then some (CodePoint.ofNat 12)
  else if c = 'n' then some '\n'
  else if c = 'r' then some '\r'
  else if c = 't' then some '\t'
  else none

/-- Where the reader stands: between characters, after the backslash that begins `here`, or inside
a unit whose letter `u` begins `here`, with some digits read. -/
inductive State where
  | plain
  | escape (here : Text)
  | unit (here : Text) (count value : Nat)

/-- Reads the body of a literal whose opening quote begins `opening`; the answer holds the pieces
in reverse and what follows the closing quote. A fault comes with the text that begins at its
place. A unit must be followed by at least one more character. -/
def scanFrom (opening : Text) : Text → State → List Piece → Except (Fault × Text) (List Piece × Text)
  | [], .plain, _ => .error (.unterminated, opening)
  | [], .escape _, _ => .error (.unterminated, opening)
  | [], .unit here _ _, _ => .error (.badUnicodeEscape, here)
  | c :: rest, .plain, done =>
    if c = '"' then .ok (done, rest)
    else if c = '\\' then scanFrom opening rest (.escape (c :: rest)) done
    else if c.toNat < 0x20 then .error (.controlCharacter, c :: rest)
    else scanFrom opening rest .plain (.plain c :: done)
  | c :: rest, .escape here, done =>
    if c = 'u' then scanFrom opening rest (.unit (c :: rest) 0 0) done
    else match shortEscape? c with
      | some e => scanFrom opening rest .plain (.plain e :: done)
      | none => .error (.badEscape, here)
  | c :: rest, .unit here count value, done =>
    match c.hexValue? with
    | none => .error (.badUnicodeEscape, here)
    | some d =>
      if count < 3 then scanFrom opening rest (.unit here (count + 1) (16 * value + d)) done
      else if rest.isEmpty then .error (.badUnicodeEscape, here)
      else scanFrom opening rest .plain (.unit (16 * value + d) :: done)

/-- Reads the literal whose opening quote begins `opening`. -/
def scan (opening : Text) : Except (Fault × Text) (Text × Text) :=
  match scanFrom opening opening.tail .plain [] with
  | .error f => .error f
  | .ok (done, rest) => .ok (assemble done.reverse, rest)

/-- `\u` and four hexadecimal digits. -/
def writeUnit (n : Nat) : Text := ("\\u" : Text) ++ Text.hex n 4

/-- A character between the quotes of a literal. -/
def writeOne (c : CodePoint) : Text :=
  if c = '"' then "\\\""
  else if c = '\\' then "\\\\"
  else if c = '\n' then "\\n"
  else if c = '\r' then "\\r"
  else if c = '\t' then "\\t"
  else if c.toNat = 8 then "\\b"
  else if c.toNat = 12 then "\\f"
  else if 0x20 ≤ c.toNat ∧ c.toNat ≤ 0x7E then [c]
  else if c.toNat < 0x10000 then writeUnit c.toNat
  else
    let n := c.toNat - 0x10000
    writeUnit (0xD800 + n / 0x400) ++ writeUnit (0xDC00 + n % 0x400)

def quote : CodePoint := '"'

def write (t : Text) : Text := quote :: (t.flatMap writeOne ++ [quote])

end StringLiteral

end JsonShape.Json
