import JsonShape.Decimal.Binary64
import JsonShape.Text.CodePoint
/-!
# JsonShape.Decimal.Shortest

The shortest decimal that reads back as a given binary number, and its layout.

* `Shortest.decimal`: the fewest significant digits among the decimals that round to the number,
  and of those the nearest one.
* `Layout`, `Layout.render`: where the notation turns to an exponent and how each part is written.
-/

namespace JsonShape

/-- `0.d₁d₂…dₙ * 10^point`. -/
structure Decimal where
  digits : List Nat
  point : Int
  deriving DecidableEq

namespace Shortest

/-- The least `k` from `k` on with `num < den * 10^k`, looking `fuel` steps up. -/
def pointFrom (num den : Nat) : (fuel : Nat) → Int → Int
  | 0, k => k
  | f + 1, k =>
    if num * tenTo (-k).toNat < den * tenTo k.toNat then k else pointFrom num den f (k + 1)

/-- The fraction `num / den` in units of `10^k`. -/
def inTens (num den : Nat) (k : Int) : Nat × Nat :=
  (num * tenTo (-k).toNat, den * tenTo k.toNat)

/-- The numbers that round to `m * 2^q`, with both bounds and the number itself in units of
`2^(q-2)`. The bounds themselves count when `m` is even. -/
structure Interval where
  low : Nat
  value : Nat
  high : Nat
  closed : Bool
  unit : Int

def interval (m : Nat) (q : Int) : Interval where
  low := if m = twoTo 52 ∧ Binary64.minExponent < q then 4 * m - 1 else 4 * m - 2
  value := 4 * m
  high := 4 * m + 2
  closed := m % 2 = 0
  unit := q - 2

/-- Whether `c * 10^k` lies in the interval. -/
def Interval.holds (i : Interval) (c : Nat) (k : Int) : Bool :=
  let x := c * tenTo k.toNat * twoTo (-i.unit).toNat
  let scale := tenTo (-k).toNat * twoTo i.unit.toNat
  if i.closed then i.low * scale ≤ x && x ≤ i.high * scale
  else i.low * scale < x && x < i.high * scale

/-- The neighbour of the number on the grid of multiples of `10^k` that lies in the interval, the
nearer one if both do; a tie goes to the even one. -/
def onGrid (i : Interval) (k : Int) : Option Nat :=
  let (n, d) := inTens (i.value * twoTo i.unit.toNat) (twoTo (-i.unit).toNat) k
  let below := n / d
  let above := below + 1
  match i.holds below k && below ≠ 0, i.holds above k with
  | true, true =>
    let r := n % d
    if 2 * r < d ∨ (2 * r = d ∧ below % 2 = 0) then some below else some above
  | true, false => some below
  | false, true => some above
  | false, false => none

/-- Tries the grids from `n` digits on, `fuel` of them. -/
def search (i : Interval) (point : Int) : (fuel n : Nat) → Nat × Int
  | 0, n => (i.value, point - n)
  | f + 1, n =>
    match onGrid i (point - n) with
    | some c => (c, point - n)
    | none => search i point f (n + 1)

/-- Shortest decimal for `m * 2^q` with `m` positive. -/
def decimal (m : Nat) (q : Int) : Decimal :=
  let i := interval m q
  let (num, den) := (m * twoTo q.toNat, twoTo (-q).toNat)
  let start : Int := ((num.log2 : Int) - den.log2) * 3 / 10 - 2
  let point := pointFrom num den 20 start
  let (c, k) := search i point 17 1
  let ds := (Nat.toDigits 10 c).map fun d => d.toNat - 0x30
  ⟨(ds.reverse.dropWhile (· = 0)).reverse, ds.length + k⟩

end Shortest

/-- How a number is laid out: the decimal points between which notation is positional, what is
written after a whole number, the least width of an exponent, and the special values. -/
structure Layout where
  least : Int
  greatest : Int
  whole : Text
  exponentMark : Text
  exponentWidth : Nat
  nan : Text
  infinity : Text

namespace Layout

def digit (d : Nat) : CodePoint := CodePoint.ofNat (0x30 + d)

def zeros (n : Nat) : Text := List.replicate n (CodePoint.ofChar '0')

/-- Positional up to sixteen digits before the point and four zeros behind it; a whole number ends
in `.0`; an exponent has a sign and two digits. -/
def standard : Layout where
  least := -4
  greatest := 16
  whole := ".0"
  exponentMark := "e"
  exponentWidth := 2
  nan := "nan"
  infinity := "inf"

/-- The layout of numbers in JSON text. -/
def json : Layout := { standard with nan := "NaN", infinity := "Infinity" }

def exponent (l : Layout) (e : Int) : Text :=
  let ds := Text.ofNat e.natAbs
  l.exponentMark ++ [CodePoint.ofChar (if e < 0 then '-' else '+')] ++ zeros (l.exponentWidth - ds.length) ++ ds

def magnitude (l : Layout) (d : Decimal) : Text :=
  let ds := d.digits.map digit
  if l.least < d.point ∧ d.point ≤ l.greatest then
    if d.point ≤ 0 then ("0." : Text) ++ zeros d.point.natAbs ++ ds
    else
      let n := d.point.toNat
      if ds.length ≤ n then ds ++ zeros (n - ds.length) ++ l.whole
      else ds.take n ++ (("." : Text) ++ ds.drop n)
  else
    match ds with
    | [] => []
    | c :: rest =>
      (if rest.isEmpty then [c] else c :: (Text.dot :: rest)) ++ l.exponent (d.point - 1)

def render (l : Layout) : Binary64 → Text
  | .nan => l.nan
  | .infinity negative => (if negative then ("-" : Text) else []) ++ l.infinity
  | .finite negative m q =>
    (if negative then ("-" : Text) else []) ++
      (if m = 0 then ("0" : Text) ++ l.whole else l.magnitude (Shortest.decimal m q))

end Layout

end JsonShape
