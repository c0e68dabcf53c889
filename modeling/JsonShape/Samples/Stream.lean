import JsonShape.Samples.Decode
import JsonShape.Samples.Line
import JsonShape.Storage.Tree
/-!
# JsonShape.Samples.Stream

Samples of files, one a line.

* `Sample`: a decoded value, or the fault of a line that is skipped.
* `Stream`: samples in order, and what ended the reading if something did.
* `Stream.ofContent`, `Stream.ofFile`: from a file.
* `Limit`, `Stream.read`: how many values are wanted, and the samples of files up to the last of them.
-/

namespace JsonShape.Samples

abbrev Sample := Except SampleFault Json.Value

/-- What ends a reading. -/
inductive StreamFault where
  | storage (f : Storage.Fault)
  | tooManyDigits (count : Nat)
  | noLimit
  deriving DecidableEq

/-- How many values are wanted: up to a number, or all if that is not positive. A limit without a
number leaves it open, which is a fault as soon as a value is to be counted. -/
inductive Limit where
  | upTo (n : Int)
  | missing
  deriving DecidableEq

/-- Where a reading stands: it goes on with so many values counted, or has ended, with what ended it if
something did. -/
inductive Progress where
  | counted (count : Nat)
  | ended (failure : Option StreamFault)

/-- Where a reading stands behind a value that is the last of `count`. -/
def Limit.after (l : Limit) (count : Nat) : Progress :=
  match l with
  | .upTo n => if 0 < n ∧ n ≤ count then .ended none else .counted count
  | .missing => .ended (some .noLimit)

structure Stream where
  items : List Sample
  failure : Option StreamFault

namespace Stream

def empty : Stream := ⟨[], none⟩

def cons (s : Sample) (rest : Stream) : Stream := ⟨s :: rest.items, rest.failure⟩

/-- The samples of lines, of which the first has number `line`. Blank lines hold none. -/
def ofLines (source : Text) : (line : Nat) → List Bytes → Stream
  | _, [] => empty
  | line, l :: ls =>
    if (trim l).isEmpty then ofLines source (line + 1) ls
    else match decodeBytes (trim l) source line with
      | .ok v => cons (.ok v) (ofLines source (line + 1) ls)
      | .error (.skip f) => cons (.error f) (ofLines source (line + 1) ls)
      | .error (.tooManyDigits n) => ⟨[], some (.tooManyDigits n)⟩

def ofContent (source : Text) (content : Bytes) : Stream := ofLines source 1 (lines content)

def ofFile (tree : Storage.Tree) (path : Text) : Stream :=
  match tree.read path with
  | .error f => ⟨[], some (.storage f)⟩
  | .ok content => ofContent path content

/-- The samples of a file that are wanted where `count` values have been counted before it. The file ends
with `failure`. -/
def passOn (l : Limit) (failure : Option StreamFault) :
    (count : Nat) → List Sample → List Sample × Progress
  | count, [] => ([], match failure with
    | none => .counted count
    | some f => .ended (some f))
  | count, .error f :: rest =>
    let r := passOn l failure count rest
    (.error f :: r.1, r.2)
  | count, .ok v :: rest =>
    match l.after (count + 1) with
    | .ended reason => ([.ok v], .ended reason)
    | .counted count =>
      let r := passOn l failure count rest
      (.ok v :: r.1, r.2)

/-- The samples of files where `count` values have been counted before them. A file is opened when the
reading gets to it. -/
def readFrom (tree : Storage.Tree) (l : Limit) : (count : Nat) → List Text → Stream
  | _, [] => empty
  | count, path :: paths =>
    let file := ofFile tree path
    match passOn l file.failure count file.items with
    | (items, .ended failure) => ⟨items, failure⟩
    | (items, .counted count) =>
      let rest := readFrom tree l count paths
      ⟨items ++ rest.items, rest.failure⟩

/-- The samples of files, as many as are wanted. -/
def read (tree : Storage.Tree) (paths : List Text) (l : Limit) : Stream := readFrom tree l 0 paths

/-- The values of a stream, in order. -/
def values (s : Stream) : List Json.Value := s.items.filterMap fun
  | .ok v => some v
  | .error _ => none

/-- The faults of a stream's skipped samples, in order. -/
def skipped (s : Stream) : List SampleFault := s.items.filterMap fun
  | .ok _ => none
  | .error f => some f

end Stream

end JsonShape.Samples
