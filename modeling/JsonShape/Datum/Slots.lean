import JsonShape.Datum.Key
/-!
# JsonShape.Datum.Slots

The order in which a set lists its members. A set is an open-addressed table: each member takes the
first free slot on a way that its residue lays down, and listing goes by slots.

* `Datum.residue?`: the residue of numbers, and of tuples of them. Equal data have the same one.
* `Slots.add`: a member put into a table, which grows when three fifths of it are taken.
* `Datum.setOf`: the set of some members.
-/

namespace JsonShape

namespace Datum

def modulus : Nat := 2305843009213693951

/-- No residue is -1. -/
def settle (r : Int) : Int := if r = -1 then -2 else r

/-- Stirs the residue of one part into that of the parts before it. -/
def stir (done : UInt64) (residue : Int) : UInt64 :=
  let part := UInt64.ofInt residue
  let mixed := done + part * 14029467366897019727
  ((mixed <<< 31) ||| (mixed >>> 33)) * 11400714785074694791

/-- The residue of a tuple with so many parts, once all of them are stirred in. -/
def finish (stirred : UInt64) (parts : Nat) : Int :=
  let r := stirred + (UInt64.ofNat parts ^^^ (seed ^^^ 3527539))
  if r = 18446744073709551615 then 1546275796 else r.toInt64.toInt
where
  seed : UInt64 := 2870177450012600261

mutual

/-- The residue of a datum that has a fixed one. Two to the power of 61 leaves one, so for numbers
powers of two go round in 61 steps. -/
def residue? : Datum → Option Int
  | .bool b => some (if b then 1 else 0)
  | .int n => some (settle (n.tmod modulus))
  | .real (.finite negative m q) =>
    let r : Int := (m * twoTo (q % 61).toNat % modulus : Nat)
    some (settle (if negative then -r else r))
  | .real (.infinity negative) => some (if negative then -314159 else 314159)
  | .string [] => some 0
  | .bytes [] => some 0
  | .tuple items => (stirred? finish.seed items).map (finish · items.length)
  | _ => none

def stirred? (done : UInt64) : List Datum → Option UInt64
  | [] => some done
  | d :: ds =>
    match d.residue? with
    | none => none
    | some r => stirred? (stir done r) ds

end

end Datum

/-- A table with so many slots, and what stands in those that are taken. -/
structure Slots where
  room : Nat
  taken : List (Nat × Datum)

namespace Slots

def empty : Slots := ⟨8, []⟩

def isFree (s : Slots) (slot : Nat) : Bool := s.taken.all fun t => t.1 ≠ slot

/-- The slots tried at once: ten neighbours, or one alone near the end of the table. -/
def window (s : Slots) (slot : Nat) : List Nat :=
  (List.range (if slot + 9 < s.room then 10 else 1)).map (slot + ·)

/-- The first free slot on the way from `slot`; `mix` is what is left to turn the way by. With it
used up the way leads through all slots, so `fuel` suffices that exceeds their number by its
length. -/
def freeFrom (s : Slots) (fuel slot mix : Nat) : Nat :=
  match fuel with
  | 0 => slot
  | fuel + 1 =>
    match (s.window slot).find? s.isFree with
    | some free => free
    | none => freeFrom s fuel ((5 * slot + 1 + mix / 32) % s.room) (mix / 32)

def place (s : Slots) (residue : Int) (d : Datum) : Slots :=
  let mix := (residue % 18446744073709551616).toNat
  { s with taken := (s.freeFrom (s.room + 13) (mix % s.room) mix, d) :: s.taken }

/-- The members by slots. -/
def members (s : Slots) : List Datum := (s.taken.mergeSort fun t u => t.1 ≤ u.1).map Prod.snd

/-- Puts a member into the table. A table that has become too full is filled anew, with at least
four slots for every member. -/
def add (s : Slots) (d : Datum) (residue : Int) : Slots :=
  let full := s.place residue d
  if 5 * full.taken.length < 3 * (s.room - 1) then full
  else full.members.foldl (fun wide d => wide.place (d.residue?.getD 0) d)
    ⟨twoTo ((4 * full.taken.length).log2 + 1), []⟩

end Slots

namespace Datum

/-- Members in the order of a table, if all of them have residues. -/
def arranged? (members : List Datum) : Option (List Datum) :=
  (members.foldlM (fun (s : Slots) d => (residue? d).map (s.add d)) Slots.empty).map Slots.members

/-- The set of members that came in this order. -/
def setOf (members : List Datum) : Datum := .set ((arranged? members).getD members)

end Datum

end JsonShape
