import JsonShape.Text.CodePoint
/-!
# JsonShape.Text.Utf8

UTF-8 read one byte at a time. After a lead byte the reader knows how many bytes are owed and
between which bounds the next one lies; the bounds keep out overlong forms, surrogates and numbers
above `0x10FFFF`.

* `Utf8.decode`: the text, or the first ill-formed sequence.
* `Utf8.decodeMarked`: the same after one leading byte order mark.
* `Utf8.encode`: the bytes of a text.
* `Utf8.encode?`: the bytes of a text, or the first surrogates in it.
-/

namespace JsonShape

abbrev Bytes := List UInt8

namespace Utf8

inductive Reason where
  | startByte
  | continuationByte
  | endOfData
  deriving DecidableEq

def Reason.message : Reason → Text
  | .startByte => "invalid start byte"
  | .continuationByte => "invalid continuation byte"
  | .endOfData => "unexpected end of data"

/-- An ill-formed sequence: the offset of its lead byte, that byte, and how many bytes it spans. -/
structure Fault where
  reason : Reason
  start : Nat
  lead : UInt8
  span : Nat
  deriving DecidableEq

/-- The bytes of a fault and the reason, as one line. -/
def Fault.message (f : Fault) : Text :=
  "'utf-8' codec can't decode " ++
    (if f.span = 1 then
      "byte 0x" ++ Text.hex f.lead.toNat 2 ++ " in position " ++ Text.ofNat f.start
    else
      "bytes in position " ++ Text.ofNat f.start ++ "-" ++ Text.ofNat (f.start + f.span - 1)) ++
    ": " ++ f.reason.message

/-- A character whose lead byte is read: its bits so far, the bytes taken, those owed beyond the
next one, and the bounds of the next one. -/
structure Pending where
  lead : UInt8
  bits : Nat
  taken : Nat
  more : Nat
  low : Nat
  high : Nat

inductive Start where
  | whole (c : CodePoint)
  | pending (p : Pending)
  | refused

/-- What a byte between characters begins. -/
def start (b : UInt8) : Start :=
  let n := b.toNat
  if n < 0x80 then .whole (CodePoint.ofNat n)
  else if n < 0xC2 then .refused
  else if n < 0xE0 then .pending ⟨b, n - 0xC0, 1, 0, 0x80, 0xBF⟩
  else if n < 0xF0 then
    .pending ⟨b, n - 0xE0, 1, 1, if n = 0xE0 then 0xA0 else 0x80, if n = 0xED then 0x9F else 0xBF⟩
  else if n < 0xF5 then
    .pending ⟨b, n - 0xF0, 1, 2, if n = 0xF0 then 0x90 else 0x80, if n = 0xF4 then 0x8F else 0xBF⟩
  else .refused

/-- Reads on from `offset`, with `done` the characters so far, last first. -/
def decodeFrom : Bytes → (offset : Nat) → Option Pending → (done : Text) → Except Fault Text
  | [], _, none, done => .ok done.reverse
  | [], offset, some p, _ => .error ⟨.endOfData, offset - p.taken, p.lead, p.taken⟩
  | b :: bs, offset, none, done =>
    match start b with
    | .whole c => decodeFrom bs (offset + 1) none (c :: done)
    | .pending p => decodeFrom bs (offset + 1) (some p) done
    | .refused => .error ⟨.startByte, offset, b, 1⟩
  | b :: bs, offset, some p, done =>
    if p.low ≤ b.toNat ∧ b.toNat ≤ p.high then
      let bits := p.bits * 64 + (b.toNat - 0x80)
      match p.more with
      | 0 => decodeFrom bs (offset + 1) none (CodePoint.ofNat bits :: done)
      | m + 1 => decodeFrom bs (offset + 1) (some ⟨p.lead, bits, p.taken + 1, m, 0x80, 0xBF⟩) done
    else .error ⟨.continuationByte, offset - p.taken, p.lead, p.taken⟩

def decode (bs : Bytes) : Except Fault Text := decodeFrom bs 0 none []

/-- The byte order mark in UTF-8. -/
def mark : Bytes := [0xEF, 0xBB, 0xBF]

/-- Drops one leading byte order mark; offsets count from after it. -/
def decodeMarked (bs : Bytes) : Except Fault Text :=
  decode (if mark.isPrefixOf bs then bs.drop 3 else bs)

def encodeOne (c : CodePoint) : Bytes :=
  let n := c.toNat
  if n < 0x80 then [n.toUInt8]
  else if n < 0x800 then [(0xC0 + n / 64).toUInt8, (0x80 + n % 64).toUInt8]
  else if n < 0x10000 then
    [(0xE0 + n / 4096).toUInt8, (0x80 + n / 64 % 64).toUInt8, (0x80 + n % 64).toUInt8]
  else
    [(0xF0 + n / 262144).toUInt8, (0x80 + n / 4096 % 64).toUInt8, (0x80 + n / 64 % 64).toUInt8,
      (0x80 + n % 64).toUInt8]

def encode (t : Text) : Bytes := t.flatMap encodeOne

/-- A run of surrogates in a text: the first of them, its position, and how many there are. -/
structure Surrogates where
  first : CodePoint
  start : Nat
  count : Nat
  deriving DecidableEq

/-- The surrogates and that UTF-8 has no bytes for them, as one line. -/
def Surrogates.message (s : Surrogates) : Text :=
  "'utf-8' codec can't encode " ++
    (if s.count = 1 then
      "character '\\u" ++ Text.hex s.first.toNat 4 ++ "' in position " ++ Text.ofNat s.start
    else
      "characters in position " ++ Text.ofNat s.start ++ "-" ++ Text.ofNat (s.start + s.count - 1)) ++
    ": surrogates not allowed"

/-- The first code point that is not allowed, with the surrogates that follow it at once. -/
def surrogates? (allowed : CodePoint → Bool) (t : Text) : Option Surrogates :=
  match t.dropWhile allowed with
  | [] => none
  | c :: rest =>
    some ⟨c, (t.takeWhile allowed).length, 1 + (rest.takeWhile fun d => !d.isScalar).length⟩

/-- The bytes of a text without surrogates. -/
def encode? (t : Text) : Except Surrogates Bytes :=
  match surrogates? CodePoint.isScalar t with
  | some s => .error s
  | none => .ok (encode t)

end Utf8

end JsonShape
