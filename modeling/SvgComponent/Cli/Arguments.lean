import SvgComponent.Files.Path
import SvgComponent.Settings.Overrides
import SvgComponent.Text.Digit

/-!
# Arguments of the command line

A command line names one SVG file and any number of options. A long option may be cut short as long
as it stays unique, its value may follow behind an equals sign, and short options may be joined.

* `Setting`, `settings`: what the options set, and how they are spelled.
* `Piece`, `pieces`: each argument taken by itself.
* `Arguments`, `readArguments`: what the arguments ask for.
-/

namespace SvgComponent.Cli

open Settings Files

/-! ## Options -/

/-- What an option sets. -/
inductive Setting where
  | help
  | name
  | config
  | output
  | typescript (on : Bool)
  | memo (on : Bool)
  | props (on : Bool)
  | minify
  | removeIds
  | omitImports
  | exportStyle
  | exportName
  | quotes
  | optimize
  | format
  | verbose
  deriving DecidableEq, Repr

/-- The options with their spellings. -/
def settings : List (String × Setting) :=
  [("-h", .help), ("--help", .help), ("--name", .name), ("-n", .name), ("--config", .config),
   ("-c", .config), ("--output", .output), ("-o", .output), ("--typescript", .typescript true),
   ("--no-typescript", .typescript false), ("--memo", .memo true), ("--no-memo", .memo false),
   ("--props", .props true), ("--no-props", .props false), ("--minify", .minify),
   ("--remove-ids", .removeIds), ("--omit-imports", .omitImports),
   ("--export-style", .exportStyle), ("--export-name", .exportName), ("--quotes", .quotes),
   ("--optimize", .optimize), ("--format", .format), ("--verbose", .verbose), ("-v", .verbose)]

/-- Whether an option needs a value. -/
def Setting.takesValue : Setting → Bool
  | .name => true
  | .config => true
  | .output => true
  | .exportStyle => true
  | .exportName => true
  | .quotes => true
  | _ => false

/-- An option with all its spellings. -/
def Setting.label : Setting → String
  | .help => "-h/--help"
  | .name => "--name/-n"
  | .config => "--config/-c"
  | .output => "--output/-o"
  | .typescript _ => "--typescript/--no-typescript"
  | .memo _ => "--memo/--no-memo"
  | .props _ => "--props/--no-props"
  | .minify => "--minify"
  | .removeIds => "--remove-ids"
  | .omitImports => "--omit-imports"
  | .exportStyle => "--export-style"
  | .exportName => "--export-name"
  | .quotes => "--quotes"
  | .optimize => "--optimize"
  | .format => "--format"
  | .verbose => "--verbose/-v"

/-! ## Errors -/

/-- Why a command line is not carried out. -/
inductive ArgumentError where
  /-- It asks how the program is used. -/
  | helpWanted
  | ambiguous (argument : String) (candidates : List String)
  | valueMissing (setting : Setting)
  | valueUnused (setting : Setting) (value : String)
  | invalidChoice (setting : Setting) (value : String) (choices : List String)
  | fileMissing
  | unrecognized (arguments : List String)
  deriving DecidableEq, Repr

/-- A text in quotes. -/
def inQuotes (s : String) : String := String.ofList (Text.quoted s.toList)

/-- The wording of an argument error. -/
def ArgumentError.message : ArgumentError → String
  | .helpWanted => ""
  | .ambiguous argument candidates =>
    "ambiguous option: " ++ argument ++ " could match " ++ ", ".intercalate candidates
  | .valueMissing setting => "argument " ++ setting.label ++ ": expected one argument"
  | .valueUnused setting value =>
    "argument " ++ setting.label ++ ": ignored explicit argument " ++ inQuotes value
  | .invalidChoice setting value choices =>
    "argument " ++ setting.label ++ ": invalid choice: " ++ inQuotes value ++ " (choose from " ++
      ", ".intercalate (choices.map inQuotes) ++ ")"
  | .fileMissing => "the following arguments are required: svg_file"
  | .unrecognized arguments => "unrecognized arguments: " ++ " ".intercalate arguments

/-! ## Single arguments -/

/-- An argument taken by itself. -/
inductive Piece where
  | plain (text : String)
  /-- Two dashes alone: what follows is plain. -/
  | separator
  /-- An option, with the text attached to it; `short` if a single dash starts it. -/
  | option (setting : Setting) (short : Bool) (attached : Option (List Char))
  /-- Something like an option that is none. -/
  | unknown (text : String)
  deriving DecidableEq, Repr

/-- A text before its first equals sign, and the text behind it. -/
def splitEquals (s : List Char) : List Char × Option (List Char) :=
  match s.span (· != '=') with
  | (before, _ :: after) => (before, some after)
  | (before, []) => (before, none)

/-- Whether a text is a negative number. A line feed at its end does not count. -/
def isNegativeNumber (s : List Char) : Bool :=
  let isDigit (c : Char) : Bool := (Text.digitValue? c).isSome
  match if s.getLast? = some '\n' then s.dropLast else s with
  | '-' :: s =>
    match s.dropWhile isDigit with
    | [] => !s.isEmpty
    | '.' :: fraction => !fraction.isEmpty && fraction.all isDigit
    | _ => false
  | _ => false

/-- The options that a text which is no option's full spelling may stand for. -/
def candidates (s : List Char) : List (String × Piece) :=
  match s with
  | '-' :: '-' :: _ =>
    let (start, value) := splitEquals s
    settings.filterMap fun (spelling, setting) =>
      if start.isPrefixOf spelling.toList then
        some (spelling, .option setting false value)
      else none
  | _ =>
    settings.filterMap fun (spelling, setting) =>
      if spelling.toList = s.take 2 then
        some (spelling, .option setting true (some (s.drop 2)))
      else if s.isPrefixOf spelling.toList then some (spelling, .option setting false none)
      else none

/-- Whether an option is spelled with a single dash. -/
def isShort (s : List Char) : Bool := s[1]? != some '-'

/-- What an argument is, taken by itself. A negative number and a text with a space in it are plain
if they are no options. -/
def piece (argument : String) : Except ArgumentError Piece :=
  let s := argument.toList
  if s.head? ≠ some '-' then .ok (.plain argument)
  else match settings.lookup argument with
    | some setting => .ok (.option setting (isShort s) none)
    | none =>
      if s.length = 1 then .ok (.plain argument)
      else
        let (start, value) := splitEquals s
        match settings.lookup (String.ofList start), value with
        | some setting, some text => .ok (.option setting (isShort s) (some text))
        | _, _ =>
          match candidates s with
          | [] =>
            if isNegativeNumber s || s.contains ' ' then .ok (.plain argument)
            else .ok (.unknown argument)
          | [(_, p)] => .ok p
          | several => .error (.ambiguous argument (several.map (·.1)))

/-- What each argument is. -/
def pieces : List String → Except ArgumentError (List Piece)
  | [] => .ok []
  | argument :: rest =>
    if argument = "--" then .ok (.separator :: rest.map .plain)
    else do
      let p ← piece argument
      return p :: (← pieces rest)

/-! ## All arguments -/

/-- What a command line asks for. -/
structure Arguments where
  /-- The SVG file. -/
  file : Path
  name : Option String := none
  config : Option Path := none
  output : Option Path := none
  overrides : Overrides := {}
  verbose : Bool := false
  /-- Options that were given two dashes for a value and are left without one. -/
  unset : List Setting := []
  deriving DecidableEq, Repr

/-- The arguments read so far. -/
structure Draft where
  file : Option String := none
  name : Option String := none
  config : Option Path := none
  output : Option Path := none
  overrides : Overrides := {}
  verbose : Bool := false
  unset : List Setting := []
  /-- Arguments that nothing is asked by. -/
  extra : List String := []
  deriving DecidableEq, Repr

/-- The choice that a value names. -/
def choose {α : Type} (setting : Setting) (choices : List (String × α)) (value : String) :
    Except ArgumentError α :=
  match choices.lookup value with
  | some a => .ok a
  | none => .error (.invalidChoice setting value (choices.map (·.1)))

/-- Sets an option; one without a value ignores it. -/
def Draft.apply (d : Draft) (setting : Setting) (value : String) : Except ArgumentError Draft :=
  let d := { d with unset := d.unset.filter (· != setting) }
  let override (f : Overrides → Overrides) : Draft := { d with overrides := f d.overrides }
  match setting with
  | .help => .error .helpWanted
  | .name => .ok { d with name := some value }
  | .config => .ok { d with config := some (Path.ofText value.toList) }
  | .output => .ok { d with output := some (Path.ofText value.toList) }
  | .typescript on => .ok (override fun v => { v with typescript := some on })
  | .memo on => .ok (override fun v => { v with memo := some on })
  | .props on => .ok (override fun v => { v with passProps := some on })
  | .minify => .ok (override fun v => { v with minify := some true })
  | .removeIds => .ok (override fun v => { v with removeIds := some true })
  | .omitImports => .ok (override fun v => { v with omitImports := some true })
  | .exportStyle => do
    let style ← choose setting ExportStyle.names value
    return override fun v => { v with exportStyle := some style }
  | .exportName => .ok (override fun v => { v with exportName := some value })
  | .quotes => do
    let quote ← choose setting quoteNames value
    return override fun v => { v with quotes := some quote }
  | .optimize => .ok (override fun v => { v with optimizeSvg := some true })
  | .format => .ok (override fun v => { v with useFormatter := some true })
  | .verbose => .ok { d with verbose := true }

/-- Leaves an option that needs a value without one. A name is then empty and an export has its
plain form; the others stay unset, which shows only when they are needed. -/
def Draft.leaveUnset (d : Draft) (setting : Setting) : Draft :=
  match setting with
  | .name => { d with name := some "" }
  | .exportName => { d with overrides := { d.overrides with exportName := some "" } }
  | .exportStyle => { d with overrides := { d.overrides with exportStyle := some .const } }
  | setting => { d with unset := setting :: d.unset }

/-- Sets an option to the text attached to it. Two dashes alone are no value. -/
def Draft.applyAttached (d : Draft) (setting : Setting) (text : List Char) :
    Except ArgumentError Draft :=
  if text = ['-', '-'] then .ok (d.leaveUnset setting) else d.apply setting (String.ofList text)

/-- What is left of a command line, and what was read. -/
abbrev Progress := Except ArgumentError (Draft × List Piece)

/-- Sets an option that has no value attached: the next argument is its value if it needs one. -/
def Draft.useNext (d : Draft) (setting : Setting) (rest : List Piece) : Progress :=
  if setting.takesValue then
    match rest with
    | .plain value :: rest => (d.apply setting value).map (·, rest)
    | _ => .error (.valueMissing setting)
  else (d.apply setting "").map (·, rest)

/-- Sets an option with a text attached. Behind a short option without a value, the text is more
short options, and the option is set once they are. -/
def Draft.useAttached (d : Draft) (setting : Setting) (short : Bool) (rest : List Piece) :
    List Char → Progress
  | [] =>
    if setting.takesValue then (d.apply setting "").map (·, rest)
    else .error (.valueUnused setting "")
  | c :: text =>
    if setting.takesValue then (d.applyAttached setting (c :: text)).map (·, rest)
    else match if short then settings.lookup (String.ofList ['-', c]) else none with
      | none => .error (.valueUnused setting (String.ofList (c :: text)))
      | some next => do
        let (d, rest) ←
          if text.isEmpty then d.useNext next rest else d.useAttached next true rest text
        return (← d.apply setting "", rest)

/-- Sets an option. -/
def Draft.use (d : Draft) (setting : Setting) (short : Bool) (attached : Option (List Char))
    (rest : List Piece) : Progress :=
  match attached with
  | none => d.useNext setting rest
  | some text => d.useAttached setting short rest text

/-- Reads the arguments that are left; `behindFile` tells whether the last one named the file. The
separator is passed over next to the file and is an argument of its own elsewhere. -/
def Draft.readFrom (d : Draft) (behindFile : Bool) (rest : List Piece) :
    Nat → Except ArgumentError Draft
  | 0 => .ok d
  | fuel + 1 =>
    match rest with
    | [] => .ok d
    | .plain text :: rest =>
      if d.file.isNone then { d with file := some text }.readFrom true rest fuel
      else { d with extra := d.extra ++ [text] }.readFrom false rest fuel
    | .separator :: rest =>
      if behindFile || d.file.isNone then d.readFrom false rest fuel
      else { d with extra := d.extra ++ ["--"] }.readFrom false rest fuel
    | .unknown text :: rest => { d with extra := d.extra ++ [text] }.readFrom false rest fuel
    | .option setting short attached :: rest => do
      let (d, rest) ← d.use setting short attached rest
      d.readFrom false rest fuel

/-- What a command line asks for. -/
def readArguments (arguments : List String) : Except ArgumentError Arguments := do
  let ps ← pieces arguments
  let d ← Draft.readFrom {} false ps ps.length
  match d.file, d.extra with
  | none, _ => .error .fileMissing
  | some file, [] =>
    .ok
      { file := Path.ofText file.toList
        name := d.name
        config := d.config
        output := d.output
        overrides := d.overrides
        verbose := d.verbose
        unset := d.unset }
  | some _, extra => .error (.unrecognized extra)

end SvgComponent.Cli
