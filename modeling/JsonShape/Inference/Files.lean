import JsonShape.Inference.Accumulator
import JsonShape.Inference.Shards
/-!
# JsonShape.Inference.Files

The shape of the samples in files.

* `inferFiles`: one worker gathers the samples as they come; otherwise the values are collected and
  folded in shards. Either way the result counts values and lists skipped samples.
-/

namespace JsonShape

open Samples (Stream StreamFault)

inductive FilesFault where
  | noFiles
  | stream (f : StreamFault)
  | shards (f : ShardFault)

def FilesFault.message : FilesFault → Text
  | .noFiles => "At least one input file is required"
  | .stream (.storage f) => f.message
  | .stream (.tooManyDigits n) => (Json.ReadError.tooManyDigits n).message
  | .stream .noLimit => "'>' not supported between instances of 'list' and 'int'"
  | .shards f => f.message

/-- The number of workers to use: zero leaves it to the machine. -/
def workersOf (n : Int) : Option Int := if n = 0 then none else some n

/-- Gathers a stream into an accumulator. -/
def gather (s : Stream) : Traced FilesFault Accumulator :=
  ⟨s.skipped.map Accumulator.skipRecord,
    match s.failure with
    | some f => .error (.stream f)
    | none => .ok (Accumulator.empty.addAll s.items)⟩

/-- Collects a stream and folds its values in shards. -/
def collect (s : Stream) (workers : Option Int) : Traced FilesFault Accumulator :=
  match s.failure with
  | some f => ⟨s.skipped.map Accumulator.skipRecord, .error (.stream f)⟩
  | none =>
    let sharded := Shape.inferSharded s.values workers Shape.standardShardSize
    ⟨s.skipped.map Accumulator.skipRecord ++ sharded.log,
      match sharded.result with
      | .error f => .error (.shards f)
      | .ok shape => .ok ⟨shape, s.values.length, s.skipped⟩⟩

/-- The shape of as many samples of some files as are wanted, worked out by so many workers. -/
def inferFiles (tree : Storage.Tree) (paths : List Text) (l : Samples.Limit) (workers : Int) :
    Traced FilesFault Accumulator :=
  if paths.isEmpty then .error .noFiles
  else if workers = 1 then gather (.read tree paths l)
  else collect (.read tree paths l) (workersOf workers)

end JsonShape
