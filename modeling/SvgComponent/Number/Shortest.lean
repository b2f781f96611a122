import SvgComponent.Number.Binary

/-!
# Decimal digits of a floating-point number

A positive floating-point number `mantissa * 2 ^ exponent` stands for all reals that are nearer to
it than to its neighbours. `shortest` picks the decimal with the fewest digits among them, and of
those the nearest; `rounded` picks the nearest decimal of a given number of digits. Of two that are
equally near both pick the one with the even last digit. All arithmetic is exact.
-/

namespace SvgComponent.Number

/-- A positive rational number. -/
structure Ratio where
  num : Nat
  den : Nat
  deriving DecidableEq, Repr

/-- The value `n * 2 ^ exponent`. -/
def Ratio.scale2 (n : Nat) (exponent : Int) : Ratio :=
  if 0 ≤ exponent then ⟨n * Nat.pow 2 exponent.toNat, 1⟩ else ⟨n, Nat.pow 2 (-exponent).toNat⟩

/-- The value divided by `10 ^ exponent`. -/
def Ratio.over10 (r : Ratio) (exponent : Int) : Ratio :=
  if 0 ≤ exponent then ⟨r.num, r.den * Nat.pow 10 exponent.toNat⟩
  else ⟨r.num * Nat.pow 10 (-exponent).toNat, r.den⟩

/-- The greatest integer that is not above the value. -/
def Ratio.floor (r : Ratio) : Nat := r.num / r.den

/-- Whether the value is at most another. -/
def Ratio.le (r s : Ratio) : Bool := r.num * s.den ≤ s.num * r.den

/-- Whether the value is below another. -/
def Ratio.lt (r s : Ratio) : Bool := r.num * s.den < s.num * r.den

/-- The integer nearest to the value; of two equally near ones the even one. -/
def Ratio.nearest (r : Ratio) : Nat :=
  let middle : Ratio := ⟨2 * r.floor + 1, 2⟩
  let up := middle.lt r || (middle.le r && r.floor % 2 = 1)
  if up then r.floor + 1 else r.floor

/-- The exponent of ten of the leading decimal digit of a positive value: the first `e` from `start`
upwards, by at most so many steps, for which the value is below `10 ^ (e + 1)`. -/
def Ratio.leading (r : Ratio) (start : Int) : Nat → Int
  | 0 => start
  | steps + 1 =>
    if (r.over10 (start + 1)).floor = 0 then start else r.leading (start + 1) steps

/-- A decimal: `digits * 10 ^ exponent`. -/
structure Decimal where
  digits : Nat
  exponent : Int
  deriving DecidableEq, Repr

/-- The reals a floating-point number stands for, as the ends of an interval. -/
structure Interval where
  low : Ratio
  value : Ratio
  high : Ratio
  /-- Whether the ends belong to it. -/
  closed : Bool
  deriving DecidableEq, Repr

/-- The interval of `mantissa * 2 ^ exponent`. Below a power of two the neighbour is half as far
away as above it. -/
def Interval.of (mantissa : Nat) (exponent : Int) : Interval :=
  let below := if mantissa = Nat.pow 2 52 ∧ -1074 < exponent then 1 else 2
  { low := .scale2 (4 * mantissa - below) (exponent - 2)
    value := .scale2 (4 * mantissa) (exponent - 2)
    high := .scale2 (4 * mantissa + 2) (exponent - 2)
    closed := mantissa % 2 = 0 }

/-- Whether the interval contains `n * 10 ^ exponent`. -/
def Interval.contains (i : Interval) (n : Nat) (exponent : Int) : Bool :=
  let low := i.low.over10 exponent
  let high := i.high.over10 exponent
  if i.closed then low.le ⟨n, 1⟩ && (Ratio.mk n 1).le high
  else low.lt ⟨n, 1⟩ && (Ratio.mk n 1).lt high

/-- The multiple of `10 ^ exponent` in the interval that is nearest to its value; of two equally
near ones the even one. -/
def Interval.pick? (i : Interval) (exponent : Int) : Option Decimal :=
  let scaled := i.value.over10 exponent
  let below := scaled.floor
  match i.contains below exponent && 0 < below, i.contains (below + 1) exponent with
  | true, false => some ⟨below, exponent⟩
  | false, true => some ⟨below + 1, exponent⟩
  | true, true => some ⟨scaled.nearest, exponent⟩
  | false, false => none

/-- The first hit on finer and finer decimal grids, or the last grid's point below the value. -/
def Interval.search (i : Interval) (exponent : Int) : Nat → Decimal
  | 0 => ⟨(i.value.over10 exponent).floor, exponent⟩
  | steps + 1 => (i.pick? exponent).getD (i.search (exponent - 1) steps)

/-- The exponent of ten of the leading decimal digit of a positive floating-point number, which lies
between `10 ^ -330` and `10 ^ 370`. -/
def leadingExponent (r : Ratio) : Int := r.leading (-330) 700

/-- The decimal with the fewest digits that stands for the same floating-point number. Seventeen
digits always suffice. -/
def shortest (mantissa : Nat) (exponent : Int) : Decimal :=
  let i := Interval.of mantissa exponent
  i.search (leadingExponent i.value) 17

/-- The decimal of `places` digits nearest to `mantissa * 2 ^ exponent`; of two equally near ones
the one with the even last digit. -/
def rounded (places : Nat) (mantissa : Nat) (exponent : Int) : Decimal :=
  let value := Ratio.scale2 mantissa exponent
  let grid := leadingExponent value - places + 1
  ⟨(value.over10 grid).nearest, grid⟩

end SvgComponent.Number
