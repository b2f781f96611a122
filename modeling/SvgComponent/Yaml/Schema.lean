import SvgComponent.Number.Literal
import SvgComponent.Settings.Value

/-!
# What plain scalars stand for

A plain scalar is null, a truth value, a number, a day or a time if it is written as one, and its
own text otherwise.

* `Kind`, `kindOf`: what a plain scalar stands for.
* `ValueFault`: what can be wrong with a scalar that is written right.
* `readScalar`: the value of a scalar of some kind.
-/

namespace SvgComponent.Yaml

open Settings

/-- What a scalar stands for. -/
inductive Kind where
  | null
  | bool
  | int
  | float
  | time
  | text
  /-- The key that merges other mappings into one. -/
  | merge
  /-- The key of a default value. -/
  | default
  deriving DecidableEq, Repr

/-- The name of the tag for a kind of scalar. -/
def Kind.name : Kind → String
  | .null => "null"
  | .bool => "bool"
  | .int => "int"
  | .float => "float"
  | .time => "timestamp"
  | .text => "str"
  | .merge => "merge"
  | .default => "value"

/-- Why a scalar that is written like a value is none. -/
inductive ValueFault where
  /-- A number without digits, to this base. -/
  | noDigits (base : Nat)
  | tooManyDigits (count : Nat)
  | year (n : Nat)
  | month
  | day
  | hour
  | minute
  | second
  /-- A distance from universal time of a day or more, in seconds. -/
  | offset (seconds : Int)
  deriving DecidableEq, Repr

/-- The wording of a fault. -/
def ValueFault.message : ValueFault → String
  | .noDigits base => "invalid literal for int() with base " ++ toString base ++ ": ''"
  | .tooManyDigits count => Number.tooManyDigits (some count)
  | .year n => "year " ++ toString n ++ " is out of range"
  | .month => "month must be in 1..12"
  | .day => "day is out of range for month"
  | .hour => "hour must be in 0..23"
  | .minute => "minute must be in 0..59"
  | .second => "second must be in 0..59"
  | .offset seconds =>
    "offset must be a timedelta strictly between -timedelta(hours=24) and " ++
      "timedelta(hours=24), not " ++ spanQuoted seconds ++ "."

/-! ## Digits -/

/-- Decimal digits. -/
def isDigit (c : Char) : Bool := '0' ≤ c && c ≤ '9'

/-- Decimal digits and underscores, which only separate them. -/
def isDigitOrBar (c : Char) : Bool := isDigit c || c == '_'

/-- A text without its underscores. -/
def withoutBars (s : List Char) : List Char := s.filter (· != '_')

/-- The number that digits to a base stand for. -/
def digitsValue (base : Nat) (s : List Char) : Nat :=
  Number.ofDigits base (s.map fun c => (Text.hexValue? c).getD 0)

/-- A text up to its first colon, and the parts behind each colon. -/
def splitColons : List Char → List Char × List (List Char)
  | [] => ([], [])
  | c :: s =>
    let (first, more) := splitColons s
    if c == ':' then ([], first :: more) else (c :: first, more)

/-- Whether a text is a part of a number to the base sixty: one digit, or two of which the first is
at most five. -/
def isSixtieth : List Char → Bool
  | [d] => isDigit d
  | [t, d] => '0' ≤ t && t ≤ '5' && isDigit d
  | _ => false

/-! ## Integers -/

/-- How an integer is written, without its sign. -/
inductive IntForm where
  /-- Digits to a base that is a power of two. -/
  | binary (base : Nat) (digits : List Char)
  | decimal (digits : List Char)
  /-- Digits to the base sixty, each written in decimals. -/
  | sixty (first : List Char) (more : List (List Char))
  deriving DecidableEq, Repr

/-- The form of an integer without its sign. -/
def intForm? (s : List Char) : Option IntForm :=
  let nonempty (t : List Char) (p : Char → Bool) : Bool := !t.isEmpty && t.all p
  match s with
  | '0' :: 'b' :: t =>
    if nonempty t fun c => c == '0' || c == '1' || c == '_' then
      some (.binary 2 (withoutBars t))
    else none
  | '0' :: 'x' :: t =>
    if nonempty t fun c => (Text.hexValue? c).isSome || c == '_' then
      some (.binary 16 (withoutBars t))
    else none
  | '0' :: t =>
    if t.all fun c => ('0' ≤ c && c ≤ '7') || c == '_' then
      some (.binary 8 ('0' :: withoutBars t))
    else none
  | c :: _ =>
    if isDigit c then
      match splitColons s with
      | (first, []) => if first.all isDigitOrBar then some (.decimal (withoutBars first)) else none
      | (first, more) =>
        if first.all isDigitOrBar && more.all isSixtieth then
          some (.sixty (withoutBars first) more)
        else none
    else none
  | [] => none

/-- The number that decimal digits stand for; there may be at most 4300 of them. -/
def decimalValue (digits : List Char) : Except ValueFault Nat :=
  if Number.maxDigits < digits.length then .error (.tooManyDigits digits.length)
  else .ok (digitsValue 10 digits)

/-- The number that is written in a form. -/
def IntForm.value : IntForm → Except ValueFault Nat
  | .binary base [] => .error (.noDigits base)
  | .binary base digits => .ok (digitsValue base digits)
  | .decimal digits => decimalValue digits
  | .sixty first more => do
    let first ← decimalValue first
    return more.foldl (fun n part => n * 60 + digitsValue 10 part) first

/-- The integer of a text that is written as one. -/
def readIntegerText? (s : List Char) : Option (Except ValueFault Int) :=
  let (negative, body) := Number.splitSign s
  (intForm? body).map fun form => do
    let n : Int ← form.value
    return if negative then -n else n

/-! ## Floating-point numbers -/

/-- Whether a text is empty or an exponent, which needs a sign. -/
def isExponent : List Char → Bool
  | [] => true
  | e :: sign :: digits =>
    (e == 'e' || e == 'E') && (sign == '+' || sign == '-') && !digits.isEmpty &&
      digits.all isDigit
  | _ => false

/-- The part of a text before its first point and the part behind it. -/
def splitPoint (s : List Char) : Option (List Char × List Char) :=
  match s.span (· != '.') with
  | (before, _ :: after) => some (before, after)
  | (_, []) => none

/-- The number of a text without underscores. -/
def decimalFloat (s : List Char) : Float := (Number.readFloat? (withoutBars s)).getD 0

/-- The value of digits to the base sixty, of which the last has a fraction. -/
def sixtyFloat (parts : List (List Char)) : Float :=
  (parts.reverse.foldl
    (fun (sum, base) part =>
      (sum + decimalFloat part * (Number.ofInt? (base : Nat)).getD 0, base * 60))
    ((0 : Float), 1)).1

/-- The number of a text that is written as one, without its sign. -/
def readUnsignedFloat? (s : List Char) : Option Float := do
  let (before, after) ← splitPoint s
  match before, splitColons before with
  | [], _ => if [".inf", ".Inf", ".INF"].contains (String.ofList s) then some (1 / 0) else none
  | c :: _, (first, []) =>
    if isDigit c && first.all isDigitOrBar && isExponent (after.dropWhile isDigitOrBar) then
      some (decimalFloat s)
    else none
  | c :: _, (first, more) =>
    if isDigit c && first.all isDigitOrBar && more.all isSixtieth && after.all isDigitOrBar then
      let (first, more) := splitColons s
      some (sixtyFloat (first :: more))
    else none

/-- The number of a text that starts with a point. -/
def readPointFloat? : List Char → Option Float
  | '.' :: c :: s =>
    if isDigit c && isExponent (s.dropWhile isDigitOrBar) then some (decimalFloat ('.' :: c :: s))
    else if [".nan", ".NaN", ".NAN"].contains (String.ofList ('.' :: c :: s)) then some (0 / 0)
    else none
  | _ => none

/-- The floating-point number of a text that is written as one. A sign may not stand in front of a
point, save that of infinity. -/
def readFloatText? (s : List Char) : Option Float :=
  (readPointFloat? s).or <|
    let (negative, body) := Number.splitSign s
    (readUnsignedFloat? body).map fun x => if negative then -x else x

/-! ## Days and times -/

/-- The number that a text starts with, of at least `least` and at most `most` digits, and the text
behind it. -/
def digitsAtStart? (least most : Nat) (s : List Char) : Option (Nat × List Char) :=
  let digits := (s.take most).takeWhile isDigit
  if least ≤ digits.length then some (digitsValue 10 digits, s.drop digits.length) else none

/-- The text behind a certain character. -/
def behind? (c : Char) : List Char → Option (List Char)
  | d :: s => if c = d then some s else none
  | [] => none

/-- A day that is written with all its digits. -/
def dateText? (s : List Char) : Option Date := do
  let (year, s) ← digitsAtStart? 4 4 s
  let (month, s) ← digitsAtStart? 2 2 (← behind? '-' s)
  let (day, s) ← digitsAtStart? 2 2 (← behind? '-' s)
  if s.isEmpty then some ⟨year, month, day⟩ else none

/-- Spaces and tabs. -/
def isSpacing (c : Char) : Bool := c == ' ' || c == '\t'

/-- The text behind what separates a day from a time. -/
def behindDay? (s : List Char) : Option (List Char) :=
  match s with
  | 'T' :: s => some s
  | 't' :: s => some s
  | c :: s => if isSpacing c then some (s.dropWhile isSpacing) else none
  | [] => none

/-- A fraction of a second in microseconds, and the text behind it. -/
def fraction (s : List Char) : Nat × List Char :=
  match s with
  | '.' :: s =>
    let digits := s.takeWhile isDigit
    let six := digits.take 6
    (digitsValue 10 (six ++ List.replicate (6 - six.length) '0'), s.drop digits.length)
  | s => (0, s)

/-- A distance from universal time in seconds, which may be missing. -/
def offset? (s : List Char) : Option (Option Int) :=
  match s with
  | [] => some none
  | _ =>
    match s.dropWhile isSpacing with
    | ['Z'] => some (some 0)
    | sign :: s => do
      if sign = '+' ∨ sign = '-' then
        let (hours, s) ← digitsAtStart? 1 2 s
        let (minutes, s) ← match s with
          | ':' :: s => digitsAtStart? 2 2 s
          | s => some (0, s)
        let seconds : Int := hours * 3600 + minutes * 60
        if s.isEmpty then some (some (if sign = '-' then -seconds else seconds)) else none
      else none
    | [] => none

/-- A day and time. -/
def momentText? (s : List Char) : Option (Date × Clock × Option Int) := do
  let (year, s) ← digitsAtStart? 4 4 s
  let (month, s) ← digitsAtStart? 1 2 (← behind? '-' s)
  let (day, s) ← digitsAtStart? 1 2 (← behind? '-' s)
  let (hour, s) ← digitsAtStart? 1 2 (← behindDay? s)
  let (minute, s) ← digitsAtStart? 2 2 (← behind? ':' s)
  let (second, s) ← digitsAtStart? 2 2 (← behind? ':' s)
  let (micro, s) := fraction s
  let offset ← offset? s
  some (⟨year, month, day⟩, ⟨hour, minute, second, micro⟩, offset)

/-- Whether a year has a day more. -/
def isLeap (year : Nat) : Bool := year % 4 == 0 && (year % 100 != 0 || year % 400 == 0)

/-- The number of days of a month. -/
def daysOf (year month : Nat) : Nat :=
  if month = 2 then (if isLeap year then 29 else 28)
  else if month = 4 ∨ month = 6 ∨ month = 9 ∨ month = 11 then 30
  else 31

/-- Whether the calendar has a day. -/
def checkDate (d : Date) : Except ValueFault Unit :=
  if d.year = 0 then .error (.year 0)
  else if d.month < 1 ∨ 12 < d.month then .error .month
  else if d.day < 1 ∨ daysOf d.year d.month < d.day then .error .day
  else .ok ()

/-- Whether a day has a time. -/
def checkClock (t : Clock) : Except ValueFault Unit :=
  if 23 < t.hour then .error .hour
  else if 59 < t.minute then .error .minute
  else if 59 < t.second then .error .second
  else .ok ()

/-- The value of a text that is written as a day or as a day and time. -/
def readTime? (s : List Char) : Option (Except ValueFault Value) :=
  match dateText? s, momentText? s with
  | some d, _ => some do
    checkDate d
    return .date d
  | none, some (d, t, offset) => some do
    if let some seconds := offset then
      if 86400 ≤ seconds.natAbs then throw (.offset seconds)
    checkDate d
    checkClock t
    return .moment d t offset
  | none, none => none

/-! ## Scalars -/

/-- The words for truth values. -/
def boolWords : List (String × Bool) :=
  [("yes", true), ("Yes", true), ("YES", true), ("no", false), ("No", false), ("NO", false),
   ("true", true), ("True", true), ("TRUE", true), ("false", false), ("False", false),
   ("FALSE", false), ("on", true), ("On", true), ("ON", true), ("off", false), ("Off", false),
   ("OFF", false)]

/-- The words for nothing. -/
def nullWords : List String := ["", "~", "null", "Null", "NULL"]

/-- What a plain scalar stands for. -/
def kindOf (s : String) : Kind :=
  if nullWords.contains s then .null
  else if (boolWords.lookup s).isSome then .bool
  else if (readFloatText? s.toList).isSome then .float
  else if (readIntegerText? s.toList).isSome then .int
  else if (readTime? s.toList).isSome then .time
  else if s = "<<" then .merge
  else if s = "=" then .default
  else .text

/-- The value of a scalar of a kind; `none` if it has none, as the kinds that are only keys. A text
that is said to be a number may be any decimal number. -/
def readScalar (kind : Kind) (s : String) : Option (Except ValueFault Value) :=
  match kind with
  | .null => some (.ok .null)
  | .bool => (boolWords.lookup s).map fun b => .ok (.bool b)
  | .int => (readIntegerText? s.toList).map fun n => Value.int <$> n
  | .float =>
    ((readFloatText? s.toList).or (Number.readFloat? (withoutBars s.toList))).map fun x =>
      .ok (.float x)
  | .time => readTime? s.toList
  | .text => some (.ok (.text s))
  | .merge => none
  | .default => none

end SvgComponent.Yaml
