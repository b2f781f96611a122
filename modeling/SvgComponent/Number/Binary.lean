/-!
# Floating-point numbers as exact values

* `Parts.of`: a floating-point number taken apart into sign, mantissa and exponent.
* `truncate`: its integer part.
* `ofInt?`, `ofDecimal`: the nearest floating-point number to an integer or a decimal.
-/

namespace SvgComponent.Number

/-- What a floating-point number stands for. -/
inductive Parts where
  | nan
  | infinite (negative : Bool)
  /-- The value `mantissa * 2 ^ exponent` with its sign. -/
  | finite (negative : Bool) (mantissa : Nat) (exponent : Int)
  deriving DecidableEq, Repr

/-- The parts of a 64-bit floating-point number. -/
def Parts.of (x : Float) : Parts :=
  let bits : Nat := x.toBits.toNat
  let negative := bits / Nat.pow 2 63 == 1
  let field : Nat := bits / Nat.pow 2 52 % Nat.pow 2 11
  let fraction : Nat := bits % Nat.pow 2 52
  if field = 2047 then
    if fraction = 0 then .infinite negative else .nan
  else if field = 0 then .finite negative fraction (-1074)
  else .finite negative (fraction + Nat.pow 2 52) ((field : Int) - 1075)

/-- Why a floating-point number has no integer part. -/
inductive NoInteger where
  | nan
  | infinite
  deriving DecidableEq, Repr

/-- The integer part of a floating-point number, towards zero. -/
def truncate (x : Float) : Except NoInteger Int :=
  match Parts.of x with
  | .nan => .error .nan
  | .infinite _ => .error .infinite
  | .finite negative mantissa exponent =>
    let size : Nat :=
      if 0 ≤ exponent then mantissa * Nat.pow 2 exponent.toNat
      else mantissa / Nat.pow 2 (-exponent).toNat
    .ok (if negative then -size else size)

/-- The floating-point number nearest to an integer; `none` if that would be infinite. -/
def ofInt? (n : Int) : Option Float :=
  if n.natAbs < Nat.pow 2 1024 - Nat.pow 2 970 then
    let size := Float.ofScientific n.natAbs false 0
    some (if n < 0 then -size else size)
  else none

/-- The floating-point number nearest to `digits * 10 ^ exponent`, where `digits` has at most
`length` decimal digits. Values beyond all finite numbers are infinite, values far below the least
positive one are zero. -/
def ofDecimal (negative : Bool) (digits length : Nat) (exponent : Int) : Float :=
  let size :=
    if digits = 0 ∨ length + exponent < -400 then 0.0
    else if 400 < exponent then 1.0 / 0.0
    else Float.ofScientific digits (exponent < 0) exponent.natAbs
  if negative then -size else size

end SvgComponent.Number
