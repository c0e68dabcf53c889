/-!
# JsonShape.Text.Flips

A set of numbers given by the increasing list of the places where membership changes, the first
of them being the least member. Sets of code points are kept in this form.
-/

namespace JsonShape

abbrev Flips := List Nat

namespace Flips

def contains : Flips → Nat → Bool
  | [], _ => false
  | f :: rest, n => if n < f then false else !contains rest n

end Flips

end JsonShape
