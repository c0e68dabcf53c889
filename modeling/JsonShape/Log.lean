import JsonShape.Text.CodePoint
/-!
# JsonShape.Log

What a run reports beside its result.

* `Log.Record`: a line of the log, by its meaning.
* `Traced`: the outcome of a run with the records it made, in order.
-/

namespace JsonShape

namespace Log

inductive Level where
  | debug
  | info
  | warning
  deriving DecidableEq

def Level.name : Level → Text
  | .debug => "DEBUG"
  | .info => "INFO"
  | .warning => "WARNING"

/-- A skipped sample with its description, the count of skipped samples among all, the count of
those that a shape was inferred from, and the counts of a sharded fold. -/
inductive Record where
  | skipping (sample : Text)
  | skipped (count total : Nat)
  | inferred (count : Nat)
  | sharded (values shards : Nat)
  deriving DecidableEq

def Record.level : Record → Level
  | .skipping _ => .warning
  | .skipped _ _ => .warning
  | .inferred _ => .info
  | .sharded _ _ => .debug

def Record.message : Record → Text
  | .skipping sample => "Skipping sample: " ++ sample
  | .skipped count total =>
    "Skipped " ++ Text.ofNat count ++ " of " ++ Text.ofNat total ++
      " samples that could not be decoded"
  | .inferred count => "Inferred shape from " ++ Text.ofNat count ++ " samples"
  | .sharded values shards =>
    "Folding " ++ Text.ofNat values ++ " values in " ++ Text.ofNat shards ++ " shards"

/-- The record as a line, without its end. -/
def Record.line (r : Record) : Text := r.level.name ++ ": " ++ r.message

end Log

/-- An outcome with the records made on the way to it. -/
structure Traced (ε α : Type) where
  log : List Log.Record
  result : Except ε α

namespace Traced

variable {ε α : Type}

def ok (a : α) : Traced ε α := ⟨[], .ok a⟩

def error (e : ε) : Traced ε α := ⟨[], .error e⟩

end Traced

end JsonShape
