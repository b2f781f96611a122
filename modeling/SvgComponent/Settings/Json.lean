import SvgComponent.Settings.Value

/-!
# JSON text of values

Values are written on one line, with a blank behind commas and colons and with every character
outside printable ASCII escaped. Days and times have no JSON form, and neither have integers with
too many digits.
-/

namespace SvgComponent.Settings

/-- Why a value has no JSON text. -/
inductive JsonError where
  /-- A value of this type cannot be written. -/
  | value (typeName : String)
  /-- A key of this type cannot be written. -/
  | key (typeName : String)
  /-- An integer has too many digits. -/
  | tooManyDigits
  deriving DecidableEq, Repr

/-- The wording of a JSON error. -/
def JsonError.message : JsonError → String
  | .value typeName => "Object of type " ++ typeName ++ " is not JSON serializable"
  | .key typeName => "keys must be str, int, float, bool or None, not " ++ typeName
  | .tooManyDigits => Number.tooManyDigits none

/-- An escape of one 16-bit unit. -/
def unitEscape (n : Nat) : List Char := '\\' :: 'u' :: Text.hexPadded 4 n

/-- A character inside a JSON string. Characters above 16 bits are written as a surrogate pair. -/
def jsonChar (c : Char) : List Char :=
  let n := c.toNat
  if c = '"' then ['\\', '"']
  else if c = '\\' then ['\\', '\\']
  else if c = '\n' then ['\\', 'n']
  else if c = '\r' then ['\\', 'r']
  else if c = '\t' then ['\\', 't']
  else if n = 12 then ['\\', 'f']
  else if n = 8 then ['\\', 'b']
  else if 0x20 ≤ n ∧ n ≤ 0x7E then [c]
  else if n < 0x10000 then unitEscape n
  else unitEscape (0xD800 + (n - 0x10000) / 0x400) ++ unitEscape (0xDC00 + (n - 0x10000) % 0x400)

/-- A JSON string. -/
def jsonString (s : String) : String :=
  String.ofList ('"' :: s.toList.flatMap jsonChar ++ ['"'])

/-- A JSON number; infinities and not-a-number have names. -/
def jsonFloat (x : Float) : String :=
  match Number.Parts.of x with
  | .nan => "NaN"
  | .infinite false => "Infinity"
  | .infinite true => "-Infinity"
  | .finite _ _ _ => Number.exactText x

/-- A JSON integer. -/
def jsonInt (n : Int) : Except JsonError String :=
  if Number.isShowable n then .ok (toString n) else .error .tooManyDigits

/-- The text of a key before it is made a JSON string. -/
def Value.jsonKey : Value → Except JsonError String
  | .null => .ok "null"
  | .bool true => .ok "true"
  | .bool false => .ok "false"
  | .int n => jsonInt n
  | .float x => .ok (jsonFloat x)
  | .text s => .ok s
  | v => .error (.key v.typeName)

mutual

/-- The JSON text of a value. -/
def Value.json : Value → Except JsonError String
  | .null => .ok "null"
  | .bool true => .ok "true"
  | .bool false => .ok "false"
  | .int n => jsonInt n
  | .float x => .ok (jsonFloat x)
  | .text s => .ok (jsonString s)
  | .date d => .error (.value (Value.date d).typeName)
  | .moment d t offset => .error (.value (Value.moment d t offset).typeName)
  | .list items => do
    let texts ← Value.jsonItems items
    return "[" ++ ", ".intercalate texts ++ "]"
  | .mapping entries => do
    let texts ← Value.jsonEntries entries
    return "\x7b" ++ ", ".intercalate texts ++ "\x7d"

/-- The JSON texts of the items of a list. -/
def Value.jsonItems : List Value → Except JsonError (List String)
  | [] => .ok []
  | v :: vs => do
    let text ← v.json
    let texts ← Value.jsonItems vs
    return text :: texts

/-- The JSON texts of the entries of a mapping. -/
def Value.jsonEntries : List (Value × Value) → Except JsonError (List String)
  | [] => .ok []
  | (k, v) :: rest => do
    let key ← k.jsonKey
    let text ← v.json
    let texts ← Value.jsonEntries rest
    return (jsonString key ++ ": " ++ text) :: texts

end

end SvgComponent.Settings
