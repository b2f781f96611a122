import SvgComponent.Number.Shortest

/-!
# The text of a number

A `Layout` says where positional writing ends and whether a whole number keeps its point. Beyond
positional writing there is one digit before the point and an exponent of at least two digits, which
carries its sign.

* `exactText`: the fewest digits that identify the number.
* `briefText`: at most six digits.
-/

namespace SvgComponent.Number

/-- The decisions of a number format. -/
structure Layout where
  /-- The greatest number of digits before the point in positional writing. -/
  maxWhole : Int
  /-- What stands behind the digits of a whole number. -/
  wholeSuffix : String
  deriving DecidableEq, Repr

/-- An exponent with its sign and at least two digits. -/
def exponentText (e : Int) : String :=
  let digits := toString e.natAbs
  (if e < 0 then "e-" else "e+") ++ (if digits.length < 2 then "0" ++ digits else digits)

/-- The digits of a decimal without zeros at their end, and the number of digits before the point;
none or fewer if the number is below one tenth. -/
def Decimal.significant (d : Decimal) : List Char × Int :=
  let digits := Nat.toDigits 10 d.digits
  let stripped := (digits.reverse.dropWhile (· == '0')).reverse
  (stripped, digits.length + d.exponent)

/-- A positive decimal as text. -/
def Layout.positive (layout : Layout) (d : Decimal) : String :=
  let (digits, whole) := d.significant
  let count : Int := digits.length
  if whole ≤ -4 ∨ layout.maxWhole < whole then
    match digits with
    | [] => exponentText 0
    | [first] => String.ofList [first] ++ exponentText (whole - 1)
    | first :: rest => String.ofList (first :: '.' :: rest) ++ exponentText (whole - 1)
  else if whole ≤ 0 then
    String.ofList ("0.".toList ++ List.replicate (-whole).toNat '0' ++ digits)
  else if count ≤ whole then
    String.ofList (digits ++ List.replicate (whole - count).toNat '0') ++ layout.wholeSuffix
  else
    String.ofList (digits.take whole.toNat ++ '.' :: digits.drop whole.toNat)

/-- A floating-point number as text, its digits chosen by `select`. -/
def Layout.text (layout : Layout) (select : Nat → Int → Decimal) (x : Float) : String :=
  let signed (negative : Bool) (s : String) := if negative then "-" ++ s else s
  match Parts.of x with
  | .nan => "nan"
  | .infinite negative => signed negative "inf"
  | .finite negative mantissa exponent =>
    signed negative <|
      if mantissa = 0 then "0" ++ layout.wholeSuffix
      else layout.positive (select mantissa exponent)

/-- Numbers are written with the fewest digits that identify them, positionally below `10 ^ 16`, and
whole numbers keep a zero behind the point. -/
def exactLayout : Layout := ⟨16, ".0"⟩

/-- Brief numbers are written positionally below `10 ^ 6`, and whole numbers have no point. -/
def briefLayout : Layout := ⟨6, ""⟩

/-- The text that identifies a floating-point number. -/
def exactText (x : Float) : String := exactLayout.text shortest x

/-- The text of a floating-point number rounded to six digits. -/
def briefText (x : Float) : String := briefLayout.text (rounded 6) x

end SvgComponent.Number
