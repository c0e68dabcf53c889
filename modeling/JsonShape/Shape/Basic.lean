import JsonShape.Entries
/-!
# JsonShape.Shape.Basic

Shapes describe the structure of JSON values. Fields and alternatives keep the order in which they
were first seen, and equality looks past it.

* `Shape.same`: equality of shapes; fields are compared as a mapping, alternatives as a set.
* `Shape.size`: the number of nodes.
* `Shape.ind`: induction over the parts of a shape.
-/

namespace JsonShape

/-- The kinds of values that have no parts. -/
inductive Scalar where
  | null
  | number
  | bool
  | string
  deriving DecidableEq

/-- `unknown` is the shape of nothing; `optional` marks what some samples lack. -/
inductive Shape where
  | unknown
  | scalar (k : Scalar)
  | optional (inner : Shape)
  | array (items : Shape)
  | object (fields : List (Text × Shape))
  | union (members : List Shape)

instance : Inhabited Shape := ⟨.unknown⟩

namespace Shape

@[induction_eliminator]
theorem ind {motive : Shape → Prop} (unknown : motive .unknown) (scalar : ∀ k, motive (.scalar k))
    (optional : ∀ s, motive s → motive (.optional s)) (array : ∀ s, motive s → motive (.array s))
    (object : ∀ fs, (∀ f ∈ fs, motive f.2) → motive (.object fs))
    (union : ∀ ms, (∀ m ∈ ms, motive m) → motive (.union ms)) (s : Shape) : motive s :=
  Shape.rec (motive_1 := motive) (motive_2 := fun fs => ∀ f ∈ fs, motive f.2)
    (motive_3 := fun ms => ∀ m ∈ ms, motive m) (motive_4 := fun f => motive f.2)
    unknown scalar optional array object union
    (fun _ h => nomatch h)
    (fun _ _ hf hfs _ h => match h with
      | .head _ => hf
      | .tail _ h => hfs _ h)
    (fun _ h => nomatch h)
    (fun _ _ hm hms _ h => match h with
      | .head _ => hm
      | .tail _ h => hms _ h)
    (fun _ _ h => h) s

mutual

def same : Shape → Shape → Bool
  | .unknown, .unknown => true
  | .scalar k, .scalar l => k = l
  | .optional a, .optional b => same a b
  | .array a, .array b => same a b
  | .object fs, .object gs => fs.length = gs.length && sameFields fs gs
  | .union ms, .union ns => ms.length = ns.length && sameMembers ms ns
  | _, _ => false

/-- Every field has an equal one under its key. -/
def sameFields : List (Text × Shape) → List (Text × Shape) → Bool
  | [], _ => true
  | (k, s) :: fs, gs =>
    (match Entries.get? k gs with
      | some t => same s t
      | none => false) && sameFields fs gs

/-- Every member has an equal one. -/
def sameMembers : List Shape → List Shape → Bool
  | [], _ => true
  | m :: ms, ns => (ns.any fun n => same m n) && sameMembers ms ns

end

mutual

def size : Shape → Nat
  | .unknown => 1
  | .scalar _ => 1
  | .optional s => s.size + 1
  | .array s => s.size + 1
  | .object fs => sizeFields fs + 1
  | .union ms => sizeMembers ms + 1

def sizeFields : List (Text × Shape) → Nat
  | [] => 0
  | (_, s) :: fs => s.size + sizeFields fs

def sizeMembers : List Shape → Nat
  | [] => 0
  | m :: ms => m.size + sizeMembers ms

end

theorem size_pos (s : Shape) : 0 < s.size := by
  cases s <;> simp [size]

theorem sizeMembers_append (ms ns : List Shape) :
    sizeMembers (ms ++ ns) = sizeMembers ms + sizeMembers ns := by
  induction ms with
  | nil => simp [sizeMembers]
  | cons m ms ih => simp [sizeMembers, ih, Nat.add_assoc]

theorem size_le_sizeMembers {m : Shape} {ms : List Shape} (h : m ∈ ms) : m.size ≤ sizeMembers ms := by
  induction ms with
  | nil => cases h
  | cons n ms ih =>
    simp only [sizeMembers]
    cases h with
    | head => omega
    | tail _ h => have := ih h; omega

theorem size_le_sizeFields {f : Text × Shape} {fs : List (Text × Shape)} (h : f ∈ fs) :
    f.2.size ≤ sizeFields fs := by
  induction fs with
  | nil => cases h
  | cons g fs ih =>
    obtain ⟨k, s⟩ := g
    simp only [sizeFields]
    cases h with
    | head => simp
    | tail _ h => have := ih h; omega

def isUnion : Shape → Bool
  | .union _ => true
  | _ => false

def isOptional : Shape → Bool
  | .optional _ => true
  | _ => false

end Shape

end JsonShape
