import JsonShape.Json.Reader
import JsonShape.Text.Utf8
/-!
# JsonShape.Samples.Decode

One sample: a line that holds one JSON value.

* `decodeText`, `decodeBytes`: the value of a sample, or why it has none.
* `SampleFault`: a sample that can be skipped, with the place of its fault.
-/

namespace JsonShape.Samples

/-- A sample that is not one JSON value. Columns count characters, or bytes where the sample is not
well-formed UTF-8, from 1. -/
structure SampleFault where
  source : Text
  line : Int
  column : Int
  message : Text
  deriving DecidableEq

/-- Source, line, column and message with colons between them. -/
def SampleFault.describe (f : SampleFault) : Text :=
  f.source ++ ":" ++ Text.ofInt f.line ++ ":" ++ Text.ofInt f.column ++ ": " ++ f.message

/-- Why a sample has no value; a number that is too long is no fault of the sample and ends the
reading. -/
inductive DecodeError where
  | skip (f : SampleFault)
  | tooManyDigits (count : Nat)
  deriving DecidableEq

def DecodeError.message : DecodeError → Text
  | .skip f => f.describe
  | .tooManyDigits n => (Json.ReadError.tooManyDigits n).message

/-- The source of a sample that names none. -/
def standardSource : Text := "<string>"

def decodeText (t : Text) (source : Text) (line : Int) : Except DecodeError Json.Value :=
  match Json.read t with
  | .ok v => .ok v
  | .error (.malformed f) => .error (.skip ⟨source, line, f.position.column, f.cause.message⟩)
  | .error (.tooManyDigits n) => .error (.tooManyDigits n)

/-- Decodes UTF-8 first; a byte order mark in front is left out. -/
def decodeBytes (bs : Bytes) (source : Text) (line : Int) : Except DecodeError Json.Value :=
  match Utf8.decodeMarked bs with
  | .error f => .error (.skip ⟨source, line, f.start + 1, f.reason.message⟩)
  | .ok t => decodeText t source line

end JsonShape.Samples
