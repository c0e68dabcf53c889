import JsonShape.Inference.Accumulator
/-!
# JsonShape.Inference.Bench

Accumulators side by side, each under a name, with results kept on the way. An accumulator that has
not been named before is empty.

* `Bench.Step`: observing, skipping, merging, keeping a result, looking one up.
* `Bench.run`: a step, with its answer.
-/

namespace JsonShape

open Samples (SampleFault)

structure Bench where
  accumulators : List (Text × Accumulator)
  kept : List (Text × Accumulator)

namespace Bench

def empty : Bench := ⟨[], []⟩

def get (b : Bench) (name : Text) : Accumulator :=
  (Entries.get? name b.accumulators).getD .empty

def put (b : Bench) (name : Text) (a : Accumulator) : Bench :=
  { b with accumulators := Entries.put name a b.accumulators }

inductive Step where
  | observe (name : Text) (d : Datum)
  | skip (name : Text) (f : SampleFault)
  | observeAll (name : Text) (items : List (Except SampleFault Datum))
  | merge (name source : Text)
  | keep (name key : Text)
  | kept (key : Text)

inductive Answer where
  | done
  | result (a : Accumulator)
  | fault (f : Datum.Fault)
  | notKept (key : Text)

/-- A bench after a step, with the step's answer and records. -/
structure Outcome where
  bench : Bench
  answer : Answer
  log : List Log.Record

def run (b : Bench) : Step → Outcome
  | .observe name d =>
    match (b.get name).observeDatum d with
    | .error f => ⟨b, .fault f, []⟩
    | .ok a => ⟨b.put name a, .done, []⟩
  | .skip name f => ⟨b.put name ((b.get name).skip f), .done, [Accumulator.skipRecord f]⟩
  | .observeAll name items =>
    let o := (b.get name).observeAll items
    ⟨b.put name o.accumulator, (o.fault.map .fault).getD .done, o.log⟩
  | .merge name source => ⟨b.put name ((b.get name).merge (b.get source)), .done, []⟩
  | .keep name key => ⟨{ b with kept := Entries.put key (b.get name) b.kept }, .done, []⟩
  | .kept key =>
    match Entries.get? key b.kept with
    | none => ⟨b, .notKept key, []⟩
    | some a => ⟨b, .result a, []⟩

end Bench

end JsonShape
