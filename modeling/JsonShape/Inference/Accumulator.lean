import JsonShape.Inference.Fold
import JsonShape.Log
import JsonShape.Samples.Stream
/-!
# JsonShape.Inference.Accumulator

Samples gathered one at a time into a shape.

* `Accumulator.observe`, `Accumulator.skip`, `Accumulator.merge`: the steps.
* `Accumulator.observeAll`: the samples of a list; one with a datum that JSON has no value for ends
  the run and keeps what came before it.
-/

namespace JsonShape

open Samples (Sample SampleFault)

/-- The shape of the values so far, their number, and the faults of the samples skipped. -/
structure Accumulator where
  shape : Shape
  count : Nat
  skipped : List SampleFault

namespace Accumulator

def empty : Accumulator := ⟨.unknown, 0, []⟩

instance : Inhabited Accumulator := ⟨empty⟩

def observe (a : Accumulator) (v : Json.Value) : Accumulator :=
  ⟨a.shape.join (Shape.ofValue v), a.count + 1, a.skipped⟩

def skip (a : Accumulator) (f : SampleFault) : Accumulator := ⟨a.shape, a.count, a.skipped ++ [f]⟩

def add (a : Accumulator) : Sample → Accumulator
  | .ok v => a.observe v
  | .error f => a.skip f

def addAll (a : Accumulator) (samples : List Sample) : Accumulator := samples.foldl add a

def merge (a b : Accumulator) : Accumulator :=
  ⟨a.shape.join b.shape, a.count + b.count, a.skipped ++ b.skipped⟩

/-- The record of a skipped sample. -/
def skipRecord (f : SampleFault) : Log.Record := .skipping f.describe

/-- Observes a datum, which must have a JSON value. -/
def observeDatum (a : Accumulator) (d : Datum) : Except Datum.Fault Accumulator :=
  match d.toValue? Text.integerDigitLimit with
  | .error f => .error f
  | .ok v => .ok (a.observe v)

/-- An accumulator after a run, the records made, and what was wrong with the datum that ended it if one
did. -/
structure Observed where
  accumulator : Accumulator
  log : List Log.Record
  fault : Option Datum.Fault

def observeAll (a : Accumulator) : List (Except SampleFault Datum) → Observed
  | [] => ⟨a, [], none⟩
  | .error f :: rest =>
    let o := observeAll (a.skip f) rest
    { o with log := skipRecord f :: o.log }
  | .ok d :: rest =>
    match a.observeDatum d with
    | .error f => ⟨a, [], some f⟩
    | .ok a => observeAll a rest

end Accumulator

end JsonShape
