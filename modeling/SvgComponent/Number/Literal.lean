import SvgComponent.Number.Binary
import SvgComponent.Text.Blank
import SvgComponent.Text.Digit

/-!
# Numbers written as text

* `readInt`: an integer, `[+-]digits`.
* `isShowable`: whether an integer is written as text at all.
* `readFloat?`: a floating-point number, `[+-]digits.digits e[+-]digits`, or a name for infinity or
  not-a-number.

In both, blanks may stand at the edges, digits may be of any script, and a single underscore may
stand between two digits.
-/

namespace SvgComponent.Number

open Text

/-- Blanks that may stand around a number: all but the four ASCII separators. -/
def isMargin (c : Char) : Bool := isBlank c && !(28 ≤ c.toNat && c.toNat ≤ 31)

/-- A text without the margins at its edges. -/
def stripMargin (s : List Char) : List Char :=
  ((s.dropWhile isMargin).reverse.dropWhile isMargin).reverse

/-- A sign in front of a number, and what is behind it. -/
def splitSign : List Char → Bool × List Char
  | '-' :: s => (true, s)
  | '+' :: s => (false, s)
  | s => (false, s)

/-- The digits that go on a number, `inside` saying that the last character was a digit, and what is
behind them. -/
def splitDigits.go (inside : Bool) : List Char → List Nat × List Char
  | [] => ([], [])
  | c :: s =>
    match digitValue? c with
    | some d =>
      let (ds, rest) := go true s
      (d :: ds, rest)
    | none =>
      if inside && c == '_' && s.head?.any (digitValue? · |>.isSome) then go false s
      else ([], c :: s)

/-- The values of the digits a text starts with, and what is behind them. A single underscore
between two digits is skipped. -/
def splitDigits (s : List Char) : List Nat × List Char := splitDigits.go false s

/-- The number that decimal digits stand for, most significant first. -/
def ofDigits (base : Nat) (ds : List Nat) : Nat := ds.foldl (fun n d => n * base + d) 0

/-- Why a text is not an integer. -/
inductive IntFault where
  | malformed
  /-- It has this many digits, which is too many. -/
  | tooLong (digits : Nat)
  deriving DecidableEq, Repr

/-- The greatest number of digits an integer may be written with. -/
def maxDigits : Nat := 4300

/-- Whether an integer has few enough digits to be written. -/
def isShowable (n : Int) : Bool := n.natAbs < Nat.pow 10 maxDigits

/-- The wording for an integer with too many digits, `count` of them if they were counted. -/
def tooManyDigits (count : Option Nat) : String :=
  "Exceeds the limit (" ++ toString maxDigits ++ " digits) for integer string conversion" ++
    ((count.map fun n => ": value has " ++ toString n ++ " digits").getD "") ++
    "; use sys.set_int_max_str_digits() to increase the limit"

/-- The integer a text stands for. -/
def readInt (s : List Char) : Except IntFault Int :=
  let (negative, body) := splitSign (stripMargin s)
  let (ds, rest) := splitDigits body
  if ds.isEmpty || rest.head? == some '_' then .error .malformed
  else if maxDigits < ds.length then .error (.tooLong ds.length)
  else if !rest.isEmpty then .error .malformed
  else
    let n : Int := ofDigits 10 ds
    .ok (if negative then -n else n)

/-- An ASCII letter in lower case. -/
def lowerAscii (c : Char) : Char :=
  if 'A' ≤ c && c ≤ 'Z' then Char.ofNat (c.toNat + 32) else c

/-- The fraction a text starts with, if a point stands first: the digits behind the point, and what
is behind them. -/
def splitFraction : List Char → List Nat × List Char
  | '.' :: s => splitDigits s
  | s => ([], s)

/-- The exponent that a text consists of: zero if it is empty. -/
def readExponent? : List Char → Option Int
  | [] => some 0
  | c :: s =>
    if c == 'e' || c == 'E' then
      let (negative, body) := splitSign s
      match splitDigits body with
      | ([], _) => none
      | (ds, []) =>
        let n : Int := ofDigits 10 ds
        some (if negative then -n else n)
      | _ => none
    else none

/-- The floating-point number a text stands for. -/
def readFloat? (s : List Char) : Option Float :=
  let (negative, body) := splitSign (stripMargin s)
  let name := String.ofList (body.map lowerAscii)
  if name == "inf" || name == "infinity" then
    some (if negative then -1.0 / 0.0 else 1.0 / 0.0)
  else if name == "nan" then some (0.0 / 0.0)
  else
    let (whole, rest) := splitDigits body
    let (fraction, rest) := splitFraction rest
    let digits := whole ++ fraction
    if digits.isEmpty then none
    else (readExponent? rest).map fun exponent =>
      ofDecimal negative (ofDigits 10 digits) digits.length (exponent - fraction.length)

end SvgComponent.Number
