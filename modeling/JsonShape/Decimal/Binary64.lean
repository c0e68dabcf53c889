/-!
# JsonShape.Decimal.Binary64

The numbers of the 64-bit binary format as exact data: a significand below `2^53` times a power
of two not below `2^-1074`.

* `Binary64.ofDecimal`: the nearest such number to a decimal, ties to the even significand.
* `Binary64.toInt?`: the integer that a number equals, if it is whole.
-/

namespace JsonShape

def twoTo (n : Nat) : Nat := Nat.pow 2 n

def tenTo (n : Nat) : Nat := Nat.pow 10 n

/-- `finite negative m q` is `m * 2^q`, or its opposite. -/
inductive Binary64 where
  | nan
  | infinity (negative : Bool)
  | finite (negative : Bool) (significand : Nat) (exponent : Int)
  deriving DecidableEq

namespace Binary64

/-- The exponent of the smallest numbers. -/
def minExponent : Int := -1074

/-- The exponent of the largest numbers. -/
def maxExponent : Int := 971

def zero (negative : Bool) : Binary64 := .finite negative 0 minExponent

/-- `num / den` rounded to a whole number; a half goes to the even neighbour. -/
def roundHalfEven (num den : Nat) : Nat :=
  let m := num / den
  let r := num % den
  if 2 * r < den then m
  else if 2 * r = den then m + m % 2
  else m + 1

/-- `num / den` in units of `2^q`, as a fraction. -/
def inUnits (num den : Nat) (q : Int) : Nat × Nat :=
  (num * twoTo (-q).toNat, den * twoTo q.toNat)

/-- The nearest number to `num / den`. -/
def ofRatio (negative : Bool) (num den : Nat) : Binary64 :=
  if num = 0 then zero negative
  else
    let guess := max ((num.log2 : Int) - den.log2 - 53) minExponent
    let (n, d) := inUnits num den guess
    let q := if n / d < twoTo 53 then guess else guess + 1
    let (n, d) := inUnits num den q
    let m := roundHalfEven n d
    let (m, q) := if m < twoTo 53 then (m, q) else (twoTo 52, q + 1)
    if maxExponent < q then .infinity negative else .finite negative m q

/-- The nearest number to `digits * 10^e`. Magnitudes far outside the format are settled by the
number of digits, so no large power of ten is formed for them. -/
def ofDecimal (negative : Bool) (digits : Nat) (e : Int) : Binary64 :=
  let size : Int := (Nat.toDigits 10 digits).length + e
  if digits = 0 ∨ size < -330 then zero negative
  else if 310 < size then .infinity negative
  else ofRatio negative (digits * tenTo e.toNat) (tenTo (-e).toNat)

/-- The integer that a number equals, if it is whole. -/
def toInt? : Binary64 → Option Int
  | .finite negative m q =>
    let (n, d) := (m * twoTo q.toNat, twoTo (-q).toNat)
    if n % d = 0 then some (if negative then -((n / d : Nat) : Int) else (n / d : Nat)) else none
  | _ => none

/-- Numeric equality: zeros of either sign are equal and a NaN equals nothing. -/
def same : Binary64 → Binary64 → Bool
  | .infinity a, .infinity b => a == b
  | .finite a m q, .finite b n r => (m == 0 && n == 0) || (a == b && m == n && q == r)
  | _, _ => false

end Binary64

end JsonShape
