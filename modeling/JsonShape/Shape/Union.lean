import JsonShape.Shape.Basic
/-!
# JsonShape.Shape.Union

Making a union: members that are unions give their own members, and of equal ones the first stays.
-/

namespace JsonShape

namespace Shape

/-- The members of a union, or the shape alone. -/
def alternatives : Shape → List Shape
  | .union ms => ms
  | s => [s]

/-- Keeps the first of equal shapes. -/
def firsts : List Shape → List Shape
  | [] => []
  | s :: ss => s :: (firsts ss).filter fun t => !s.same t

/-- The union of some shapes. -/
def unionOf (ss : List Shape) : Shape := .union (firsts (ss.flatMap alternatives))

/-- A union of one member is that member. -/
def collapse : Shape → Shape
  | .union [m] => m
  | s => s

mutual

/-- The shape made anew from its parts. -/
def rebuild : Shape → Shape
  | .unknown => .unknown
  | .scalar k => .scalar k
  | .optional s => .optional s.rebuild
  | .array s => .array s.rebuild
  | .object fs => .object (Entries.ofPairs (rebuildFields fs))
  | .union ms => unionOf (rebuildMembers ms)

def rebuildFields : List (Text × Shape) → List (Text × Shape)
  | [] => []
  | (k, s) :: fs => (k, s.rebuild) :: rebuildFields fs

def rebuildMembers : List Shape → List Shape
  | [] => []
  | m :: ms => m.rebuild :: rebuildMembers ms

end

theorem sizeMembers_filter_le (p : Shape → Bool) (ss : List Shape) :
    sizeMembers (ss.filter p) ≤ sizeMembers ss := by
  induction ss with
  | nil => simp
  | cons s ss ih => rw [List.filter_cons]; split <;> simp only [sizeMembers] <;> omega

theorem sizeMembers_firsts_le (ss : List Shape) : sizeMembers (firsts ss) ≤ sizeMembers ss := by
  induction ss with
  | nil => simp [firsts]
  | cons s ss ih =>
    have := sizeMembers_filter_le (fun t => !s.same t) (firsts ss)
    simp only [firsts, sizeMembers]
    omega

theorem sizeMembers_alternatives_le (s : Shape) : sizeMembers s.alternatives ≤ s.size := by
  cases s <;> simp [alternatives, sizeMembers, size]

theorem size_lt_of_mem_alternatives {s n : Shape} (h : s.isUnion = true) (hn : n ∈ s.alternatives) :
    n.size < s.size := by
  cases s with
  | union ms =>
    have : n.size ≤ sizeMembers ms := size_le_sizeMembers hn
    simp only [size]
    omega
  | _ => simp [isUnion] at h

theorem sizeMembers_flatMap_alternatives_le (ss : List Shape) :
    sizeMembers (ss.flatMap alternatives) ≤ sizeMembers ss := by
  induction ss with
  | nil => simp [sizeMembers]
  | cons s ss ih =>
    have := sizeMembers_alternatives_le s
    simp only [List.flatMap_cons, sizeMembers_append, sizeMembers]
    omega

theorem size_unionOf_le (ss : List Shape) : (unionOf ss).size ≤ sizeMembers ss + 1 := by
  have := sizeMembers_firsts_le (ss.flatMap alternatives)
  have := sizeMembers_flatMap_alternatives_le ss
  simp only [unionOf, size]
  omega

theorem size_collapse_le (s : Shape) : s.collapse.size ≤ s.size := by
  unfold collapse
  split
  · simp [size, sizeMembers]
  · simp

end Shape

end JsonShape
