import JsonShape.Shape.Optional
/-!
# JsonShape.Shape.Join

Joining shapes, which is how samples are brought together.

* `Shape.join`: the shape that covers two shapes. Arrays join their items, objects their fields,
  and a field of one side only becomes optional; what does not fit together becomes a union.
* `Shape.joinAll`: joins from the left.
* `Shape.joinPairs`: joins neighbours until one shape is left.
-/

namespace JsonShape

namespace Shape

/-- The fields of `gs` under keys that `fs` lacks, marked optional. -/
def onlyRight (fs gs : List (Text × Shape)) : List (Text × Shape) :=
  (gs.filter fun g => !Entries.contains fs g.1).map fun g => (g.1, g.2.optionalOf)

mutual

def join : Shape → Shape → Shape
  | .unknown, t => t
  | s, .unknown => s
  | .scalar k, .scalar l => if k = l then .scalar k else unionOf [.scalar k, .scalar l]
  | .optional s, .optional t => .optional (join s t)
  | .array s, .array t => .array (join s t)
  | .object fs, .object gs => .object (joinLeft fs gs ++ onlyRight fs gs)
  | s, t => unionOf [s, t]

/-- The fields of the left side, each joined with the right one under its key or marked optional. -/
def joinLeft : List (Text × Shape) → List (Text × Shape) → List (Text × Shape)
  | [], _ => []
  | (k, s) :: fs, gs =>
    (k, match Entries.get? k gs with
      | some t => join s t
      | none => s.optionalOf) :: joinLeft fs gs

end

def joinAll (ss : List Shape) : Shape := ss.foldl join .unknown

/-- Joins each shape at an even place with the next one; a last one without a partner stays. -/
def joinRound : List Shape → List Shape
  | s :: t :: rest => join s t :: joinRound rest
  | ss => ss

theorem length_joinRound (ss : List Shape) : (joinRound ss).length = (ss.length + 1) / 2 := by
  fun_induction joinRound ss with
  | case1 s t rest ih => simp only [List.length_cons, ih]; omega
  | case2 ss h =>
    match ss, h with
    | [], _ => rfl
    | [_], _ => simp
    | s :: t :: rest, h => exact absurd rfl (h s t rest)

/-- Rounds of `joinRound` until one shape is left; none at all gives `unknown`. -/
def joinPairs : List Shape → Shape
  | [] => .unknown
  | [s] => s
  | s :: t :: rest => joinPairs (joinRound (s :: t :: rest))
termination_by ss => ss.length
decreasing_by rw [length_joinRound]; simp only [List.length_cons]; omega

end Shape

end JsonShape
