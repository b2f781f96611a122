import SvgComponent.Settings.Value

/-!
# Errors in settings

Why settings are refused, with the wording of each reason. `SettingsError.category` tells reasons
that name a wrong option or value from those where a value has a type or a size that could not be
handled at all.
-/

namespace SvgComponent.Settings

/-- Why settings are refused. -/
inductive SettingsError where
  /-- Options of a part of the settings that do not exist. -/
  | unknownOptions (part : String) (names valid : List String)
  /-- A key that does not exist and is not text. -/
  | keyNotText (key : Value)
  /-- A key that is not text among keys that do not exist. -/
  | keysWithoutOrder (key : Value)
  | invalidChoice (option : String) (value : Value) (choices : List String)
  | notBool (option : String) (value : Value)
  | pluginShape (value : Value)
  | pluginWithoutName
  | pluginParams (name : Value)
  | pluginsNotList
  | emptyCommand
  | partNotMapping (part : String)
  | documentNotMapping
  /-- A value that cannot be shown where its text is needed. -/
  | unshowable
  /-- Text that is not an integer. -/
  | notInteger (text : String)
  | integerTooLong (digits : Nat)
  | integerOfNan
  | integerOfInfinity
  /-- A value that is neither a number nor text where an integer is needed. -/
  | noInteger (value : Value)
  /-- Text that is not a number. -/
  | notNumber (text : String)
  | numberTooLarge
  /-- A value that is neither a number nor text where a number is needed. -/
  | noNumber (value : Value)
  /-- A value that has no parts where a command is needed. -/
  | noParts (value : Value)

/-- How far an error was foreseen. -/
inductive Category where
  /-- An option or value that settings cannot have. -/
  | invalid
  /-- A value of a type that could not be handled. -/
  | wrongType
  /-- A number of a size that could not be handled. -/
  | outOfRange
  deriving DecidableEq, Repr

/-- How far an error was foreseen. -/
def SettingsError.category : SettingsError → Category
  | .keyNotText _ => .wrongType
  | .keysWithoutOrder _ => .wrongType
  | .noInteger _ => .wrongType
  | .noNumber _ => .wrongType
  | .noParts _ => .wrongType
  | .integerOfInfinity => .outOfRange
  | .numberTooLarge => .outOfRange
  | _ => .invalid

/-- Words separated by commas. -/
def listed (names : List String) : String := ", ".intercalate names

/-- The wording of a settings error. -/
def SettingsError.message : SettingsError → String
  | .unknownOptions part names valid =>
    "Unknown " ++ part ++ " option(s): " ++ listed names ++ ". Valid options: " ++ listed valid
  | .keyNotText key =>
    "sequence item 0: expected str instance, " ++ key.qualifiedTypeName ++ " found"
  | .keysWithoutOrder key =>
    "'<' not supported between instances of 'str' and '" ++ key.qualifiedTypeName ++ "'"
  | .invalidChoice option value choices =>
    "Invalid " ++ option ++ " '" ++ value.asText ++ "'. Valid values: " ++ listed choices
  | .notBool option value =>
    "Option '" ++ option ++ "' must be true or false, got " ++ value.quoted
  | .pluginShape value => "Optimizer plugin must be a name or a mapping, got " ++ value.quoted
  | .pluginWithoutName => "Each optimizer plugin must have a 'name' field"
  | .pluginParams name => "Plugin '" ++ name.asText ++ "': 'params' must be a mapping"
  | .pluginsNotList => "Optimizer 'plugins' must be a list"
  | .emptyCommand => "Formatter 'command' must not be empty"
  | .partNotMapping part => "'" ++ part ++ "' section must be a mapping"
  | .documentNotMapping => "Options file must be a YAML dictionary"
  | .unshowable => Number.tooManyDigits none
  | .notInteger text =>
    "invalid literal for int() with base 10: " ++
      String.ofList ((Text.quoted text.toList).take 200)
  | .integerTooLong digits => Number.tooManyDigits (some digits)
  | .integerOfNan => "cannot convert float NaN to integer"
  | .integerOfInfinity => "cannot convert float infinity to integer"
  | .noInteger value =>
    "int() argument must be a string, a bytes-like object or a real number, not '" ++
      value.qualifiedTypeName ++ "'"
  | .notNumber text =>
    "could not convert string to float: " ++ String.ofList (Text.quoted text.toList)
  | .numberTooLarge => "int too large to convert to float"
  | .noNumber value =>
    "float() argument must be a string or a real number, not '" ++ value.qualifiedTypeName ++ "'"
  | .noParts value => "'" ++ value.qualifiedTypeName ++ "' object is not iterable"

end SvgComponent.Settings
