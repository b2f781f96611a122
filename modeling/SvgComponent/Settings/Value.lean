import SvgComponent.Number.Layout
import SvgComponent.Number.Literal
import SvgComponent.Text.Quoted

/-!
# Values of settings

The values that a settings document can hold, before they are checked.

* `Value`, `Entries`: values, and mappings as entries in the order they were written.
* `Value.quoted`, `Value.asText`: the two ways a value is shown in messages and names.
* `Value.isShowable`: whether a value can be shown.
* `Value.sameKey`: when two values are the same key.
* `DocumentReader`: what makes values of documents.
-/

namespace SvgComponent.Settings

/-- A day of the calendar. -/
structure Date where
  year : Nat
  month : Nat
  day : Nat
  deriving DecidableEq, Repr

/-- A time of day, with microseconds. -/
structure Clock where
  hour : Nat
  minute : Nat
  second : Nat
  micro : Nat
  deriving DecidableEq, Repr

/-- A value of a settings document. -/
inductive Value where
  | null
  | bool (b : Bool)
  | int (n : Int)
  | float (x : Float)
  | text (s : String)
  | date (d : Date)
  /-- A day and time; `offset` is the distance from universal time in seconds, if given. -/
  | moment (d : Date) (t : Clock) (offset : Option Int)
  | list (items : List Value)
  | mapping (entries : List (Value × Value))

/-- The entries of a mapping, in the order they were written. -/
abbrev Entries := List (Value × Value)

/-! ## How values are shown -/

/-- A number with zeros in front up to a width. -/
def padded (width n : Nat) : String :=
  let digits := toString n
  String.ofList (List.replicate (width - digits.length) '0') ++ digits

/-- A day as year, month and day. -/
def Date.text (d : Date) : String :=
  padded 4 d.year ++ "-" ++ padded 2 d.month ++ "-" ++ padded 2 d.day

/-- A time of day; a fraction of a second has six digits. -/
def Clock.text (t : Clock) : String :=
  padded 2 t.hour ++ ":" ++ padded 2 t.minute ++ ":" ++ padded 2 t.second ++
    (if t.micro = 0 then "" else "." ++ padded 6 t.micro)

/-- A distance from universal time. -/
def offsetText (seconds : Int) : String :=
  let size := seconds.natAbs
  (if seconds < 0 then "-" else "+") ++ padded 2 (size / 3600) ++ ":" ++
    padded 2 (size / 60 % 60)

/-- Numbers separated by commas. -/
def commaSeparated (ns : List Nat) : String := ", ".intercalate (ns.map toString)

/-- A day, written as the call that makes it. -/
def Date.quoted (d : Date) : String :=
  "datetime.date(" ++ commaSeparated [d.year, d.month, d.day] ++ ")"

/-- A span of time, written as the call that makes it: whole days, which may be negative, and the
seconds above them. -/
def spanQuoted (seconds : Int) : String :=
  let days := Int.fdiv seconds 86400
  let rest := seconds - days * 86400
  let arguments :=
    (if days = 0 then [] else ["days=" ++ toString days]) ++
      (if rest = 0 then [] else ["seconds=" ++ toString rest])
  "datetime.timedelta(" ++ ", ".intercalate arguments ++ ")"

/-- The distance from universal time, written as the argument that sets it. -/
def zoneQuoted : Option Int → String
  | none => ""
  | some 0 => ", tzinfo=datetime.timezone.utc"
  | some seconds => ", tzinfo=datetime.timezone(" ++ spanQuoted seconds ++ ")"

/-- A day and time, written as the call that makes it. -/
def momentQuoted (d : Date) (t : Clock) (offset : Option Int) : String :=
  let seconds := if t.micro = 0 then (if t.second = 0 then [] else [t.second])
    else [t.second, t.micro]
  "datetime.datetime(" ++
    commaSeparated ([d.year, d.month, d.day, t.hour, t.minute] ++ seconds) ++
    zoneQuoted offset ++ ")"

mutual

/-- A value as it stands inside another one, with text in quotes. -/
def Value.quoted : Value → String
  | .null => "None"
  | .bool true => "True"
  | .bool false => "False"
  | .int n => toString n
  | .float x => Number.exactText x
  | .text s => String.ofList (Text.quoted s.toList)
  | .date d => d.quoted
  | .moment d t offset => momentQuoted d t offset
  | .list items => "[" ++ ", ".intercalate (Value.quotedItems items) ++ "]"
  | .mapping entries => "\x7b" ++ ", ".intercalate (Value.quotedEntries entries) ++ "\x7d"

/-- The items of a list, each as it stands inside it. -/
def Value.quotedItems : List Value → List String
  | [] => []
  | v :: vs => v.quoted :: Value.quotedItems vs

/-- The entries of a mapping, each as it stands inside it. -/
def Value.quotedEntries : List (Value × Value) → List String
  | [] => []
  | (k, v) :: rest => (k.quoted ++ ": " ++ v.quoted) :: Value.quotedEntries rest

end

/-- A value as text: text is itself, days and times have no call around them. -/
def Value.asText : Value → String
  | .text s => s
  | .date d => d.text
  | .moment d t offset => d.text ++ " " ++ t.text ++ (offset.map offsetText).getD ""
  | v => v.quoted

mutual

/-- Whether a value can be shown: it holds no integer with too many digits. -/
def Value.isShowable : Value → Bool
  | .int n => Number.isShowable n
  | .list items => Value.areShowable items
  | .mapping entries => Value.entriesAreShowable entries
  | _ => true

/-- Whether all items of a list can be shown. -/
def Value.areShowable : List Value → Bool
  | [] => true
  | v :: vs => v.isShowable && Value.areShowable vs

/-- Whether all entries of a mapping can be shown. -/
def Value.entriesAreShowable : List (Value × Value) → Bool
  | [] => true
  | (k, v) :: rest => k.isShowable && v.isShowable && Value.entriesAreShowable rest

end

/-- Whether a value is text. -/
def Value.isText : Value → Bool
  | .text _ => true
  | _ => false

/-- The name of the type of a value. -/
def Value.typeName : Value → String
  | .null => "NoneType"
  | .bool _ => "bool"
  | .int _ => "int"
  | .float _ => "float"
  | .text _ => "str"
  | .date _ => "date"
  | .moment _ _ _ => "datetime"
  | .list _ => "list"
  | .mapping _ => "dict"

/-- The name of the type of a value together with the module it comes from. -/
def Value.qualifiedTypeName : Value → String
  | .date _ => "datetime.date"
  | .moment _ _ _ => "datetime.datetime"
  | v => v.typeName

/-! ## Keys -/

/-- Whether an integer and a floating-point number are equal. -/
def intEqFloat (n : Int) (x : Float) : Bool :=
  match Number.truncate x with
  | .ok m => m == n && (Number.ofInt? m).any (· == x)
  | .error _ => false

/-- The integer that a value counts as: a truth value counts as one or zero. -/
def Value.asInt? : Value → Option Int
  | .bool b => some (if b then 1 else 0)
  | .int n => some n
  | _ => none

/-- Whether two values are the same key of a mapping. Numbers are compared by value, whatever their
type; a value that cannot be a key is the same as none. -/
def Value.sameKey (a b : Value) : Bool :=
  match a, b with
  | .null, .null => true
  | .text s, .text t => s == t
  | .date d, .date e => d == e
  | .moment d t o, .moment e u p => d == e && t == u && o == p
  | .float x, .float y => x == y
  | .float x, v => v.asInt?.any (intEqFloat · x)
  | v, .float x => v.asInt?.any (intEqFloat · x)
  | v, w => v.asInt?.isSome && v.asInt? == w.asInt?

/-- The entries with `value` under `key`: at the place of the key if it is there, which keeps its
first spelling, and behind the others if it is new. -/
def setEntry (entries : Entries) (key value : Value) : Entries :=
  if entries.any (·.1.sameKey key) then
    entries.map fun e => if e.1.sameKey key then (e.1, value) else e
  else entries ++ [(key, value)]

/-- The value under a key that is text. -/
def lookup? (entries : Entries) (key : String) : Option Value :=
  (entries.find? fun e => e.1.sameKey (.text key)).map (·.2)

/-! ## Documents -/

/-- What makes values of the documents of a language, whose errors are of type `ε`. -/
structure DocumentReader (ε : Type) where
  /-- The value of a document. -/
  read : List Char → Except ε Value
  /-- The wording of an error in the document of this name. -/
  wording : String → ε → String

end SvgComponent.Settings
