import JsonShape.Inference.Fold
import JsonShape.Log
/-!
# JsonShape.Inference.Shards

Inference in parts. A list is cut into shards, each shard is folded from the left, and the partial
shapes are joined in pairs. Workers fold the shards but have no say in the result.

* `shards`: consecutive parts of a given size; the last one may be shorter.
* `Shape.inferSharded`: the shape of the list, or why it cannot be worked out.
-/

namespace JsonShape

/-- Consecutive parts of `n + 1` elements; the last one may be shorter. -/
def shardsOfSucc {α : Type} (n : Nat) : List α → List (List α)
  | [] => []
  | a :: rest => (a :: rest.take n) :: shardsOfSucc n (rest.drop n)
termination_by as => as.length
decreasing_by simp only [List.length_cons, List.length_drop]; omega

/-- Consecutive parts of `size` elements, which is at least one. -/
def shards {α : Type} (size : Nat) (as : List α) : List (List α) := shardsOfSucc (size - 1) as

inductive ShardFault where
  | sizeBelowOne
  | noWorkers
  deriving DecidableEq

def ShardFault.message : ShardFault → Text
  | .sizeBelowOne => "shard_size must be at least 1"
  | .noWorkers => "max_workers must be greater than 0"

namespace Shape

/-- The usual number of values in a shard. -/
def standardShardSize : Int := 1000

/-- Joins the shapes of shards. -/
def inferShards (parts : List (List Json.Value)) : Shape := joinPairs (parts.map infer)

/-- Infers in shards of `size`. `workers` counts the workers, `none` being as many as there are
processors; a single worker, or a single shard, is folded on the spot. -/
def inferSharded (vs : List Json.Value) (workers : Option Int) (size : Int) :
    Traced ShardFault Shape :=
  if size < 1 then .error .sizeBelowOne
  else
    let parts := shards size.toNat vs
    if workers = some 1 ∨ parts.length ≤ 1 then .ok (inferShards parts)
    else
      ⟨[.sharded vs.length parts.length],
        if (workers.getD 1) ≤ 0 then .error .noWorkers else .ok (inferShards parts)⟩

end Shape

end JsonShape
