import SvgComponent.Number.Literal
import SvgComponent.Settings.Error
import SvgComponent.Settings.Options
import SvgComponent.Text.Blank

/-!
# Reading options

Options are read from the entries of a mapping. Entries that name no option are refused before any
value is looked at, so that a misspelt option does not pass for its default; then the options are
read in a fixed order, and the first that is wrong is reported.

* `readPlugin`, `readOptimizer`, `readFormatter`: parts of the settings.
* `readOptions`: all settings.
-/

namespace SvgComponent.Settings

/-! ## Keys -/

/-- Refuses entries that name no option of a part of the settings. What they name is listed in
order, and text has no order with other values. -/
def checkKeys (part : String) (valid : List String) (entries : Entries) :
    Except SettingsError Unit :=
  let keys := entries.map (·.1)
  let others := keys.filter fun k => !k.isText
  let names := keys.filterMap fun k => match k with
    | .text s => if valid.contains s then none else some s
    | _ => none
  match others, names with
  | [], [] => .ok ()
  | [], _ => .error (.unknownOptions part (names.mergeSort (· ≤ ·)) valid)
  | key :: _, [] => .error (.keyNotText key)
  | key :: _, _ => .error (.keysWithoutOrder key)

/-- The value of an option read by `read`, or its default if the option is not there. -/
def readOr {α : Type} (entries : Entries) (option : String) (default : α)
    (read : Value → Except SettingsError α) : Except SettingsError α :=
  match lookup? entries option with
  | none => .ok default
  | some v => read v

/-! ## Values -/

/-- The error for a value that its wording shows, if it can be shown. -/
def showing (v : Value) (e : SettingsError) : SettingsError :=
  if v.isShowable then e else .unshowable

/-- A value as text. -/
def readAsText (v : Value) : Except SettingsError String :=
  if v.isShowable then .ok v.asText else .error .unshowable

/-- A truth value. -/
def readBool (option : String) : Value → Except SettingsError Bool
  | .bool b => .ok b
  | v => .error (showing v (.notBool option v))

/-- One of several named choices. -/
def readChoice {α : Type} (option : String) (choices : List (String × α)) (v : Value) :
    Except SettingsError α :=
  let refused := Except.error (showing v (.invalidChoice option v (choices.map (·.1))))
  match v with
  | .text s =>
    match choices.lookup s with
    | some a => .ok a
    | none => refused
  | _ => refused

/-- An integer. Fractions are dropped, and truth values count as one and zero. -/
def readInteger : Value → Except SettingsError Int
  | .bool b => .ok (if b then 1 else 0)
  | .int n => .ok n
  | .float x =>
    match Number.truncate x with
    | .ok n => .ok n
    | .error .nan => .error .integerOfNan
    | .error .infinite => .error .integerOfInfinity
  | .text s =>
    match Number.readInt s.toList with
    | .ok n => .ok n
    | .error .malformed => .error (.notInteger s)
    | .error (.tooLong digits) => .error (.integerTooLong digits)
  | v => .error (.noInteger v)

/-- A number. Truth values count as one and zero. -/
def readNumber : Value → Except SettingsError Float
  | .bool b => .ok (if b then 1.0 else 0.0)
  | .int n =>
    match Number.ofInt? n with
    | some x => .ok x
    | none => .error .numberTooLarge
  | .float x => .ok x
  | .text s =>
    match Number.readFloat? s.toList with
    | some x => .ok x
    | none => .error (.notNumber s)
  | v => .error (.noNumber v)

/-- Whether a value counts as nothing: null, false, zero, or empty. -/
def Value.isNothing : Value → Bool
  | .null => true
  | .bool b => !b
  | .int n => n == 0
  | .float x => x == 0.0
  | .text s => s.isEmpty
  | .list items => items.isEmpty
  | .mapping entries => entries.isEmpty
  | _ => false

/-- A command and its arguments: the words of a text, the items of a list, or the keys of a
mapping. -/
def readCommand (v : Value) : Except SettingsError (List String) :=
  match v with
  | .text s =>
    match Text.words s.toList with
    | [] => .error .emptyCommand
    | ws => .ok (ws.map String.ofList)
  | .list items => if items.isEmpty then .error .emptyCommand else items.mapM readAsText
  | .mapping entries =>
    if entries.isEmpty then .error .emptyCommand else entries.mapM (readAsText ·.1)
  | v => if v.isNothing then .error .emptyCommand else .error (.noParts v)

/-! ## The optimizer's part -/

/-- A plugin: its name, or a mapping with its name and parameters. -/
def readPlugin : Value → Except SettingsError Plugin
  | .text name => .ok { name }
  | .mapping entries => do
    checkKeys "optimizer plugin" ["name", "params"] entries
    match lookup? entries "name" with
    | none => .error .pluginWithoutName
    | some name =>
      let params ← match lookup? entries "params" with
        | none => .ok none
        | some .null => .ok none
        | some (.mapping params) => .ok (some params)
        | some _ => .error (showing name (.pluginParams name))
      return { name := ← readAsText name, params }
  | v => .error (showing v (.pluginShape v))

/-- The plugins of the optimizer. -/
def readPlugins : Value → Except SettingsError (List Plugin)
  | .list items => items.mapM readPlugin
  | _ => .error .pluginsNotList

/-- The options of the optimizer, sorted by name. -/
def optimizerOptionNames : List String :=
  ["float_precision", "multipass", "node", "plugins", "timeout"]

/-- The optimizer's part of the settings. -/
def readOptimizer (entries : Entries) : Except SettingsError OptimizerOptions := do
  checkKeys "optimizer" optimizerOptionNames entries
  let defaults : OptimizerOptions := {}
  let plugins ← readOr entries "plugins" defaults.plugins readPlugins
  let multipass ← readOr entries "multipass" defaults.multipass (readBool "multipass")
  let floatPrecision ← readOr entries "float_precision" none fun v => some <$> readInteger v
  let node ← readOr entries "node" defaults.node readAsText
  let timeout ← readOr entries "timeout" defaults.timeout readNumber
  return { plugins, multipass, floatPrecision, node, timeout }

/-! ## The formatter's part -/

/-- The options of the formatter, sorted by name. -/
def formatterOptionNames : List String :=
  ["arrow_parens", "bracket_spacing", "command", "print_width", "quote_style", "semicolons",
   "tab_width", "timeout", "trailing_comma", "use_tabs"]

/-- The use of trailing commas. The formatter's own name for the minimal use is taken too. -/
def readTrailingComma (v : Value) : Except SettingsError TrailingComma :=
  match v with
  | .text "es5" => .ok .minimal
  | v => readChoice "trailing_comma" TrailingComma.names v

/-- The formatter's part of the settings. -/
def readFormatter (entries : Entries) : Except SettingsError FormatterOptions := do
  checkKeys "formatter" formatterOptionNames entries
  let defaults : FormatterOptions := {}
  let printWidth ← readOr entries "print_width" defaults.printWidth readInteger
  let tabWidth ← readOr entries "tab_width" defaults.tabWidth readInteger
  let useTabs ← readOr entries "use_tabs" defaults.useTabs (readBool "use_tabs")
  let semicolons ← readOr entries "semicolons" defaults.semicolons (readBool "semicolons")
  let quoteStyle ← readOr entries "quote_style" defaults.quoteStyle
    (readChoice "quote_style" quoteNames)
  let trailingComma ← readOr entries "trailing_comma" defaults.trailingComma readTrailingComma
  let bracketSpacing ← readOr entries "bracket_spacing" defaults.bracketSpacing
    (readBool "bracket_spacing")
  let arrowParens ← readOr entries "arrow_parens" defaults.arrowParens
    (readChoice "arrow_parens" ArrowParens.names)
  let command ← readOr entries "command" defaults.command readCommand
  let timeout ← readOr entries "timeout" defaults.timeout readNumber
  return { printWidth, tabWidth, useTabs, semicolons, quoteStyle, trailingComma, bracketSpacing,
           arrowParens, command, timeout }

/-! ## All settings -/

/-- The options of a conversion, sorted by name. -/
def optionNames : List String :=
  ["export_name", "export_style", "formatter", "memo", "minify", "omit_imports", "optimize_svg",
   "optimizer", "pass_props", "quotes", "remove_ids", "typescript", "use_formatter"]

/-- A part of the settings that is a mapping of its own; null stands for its default. -/
def readPart {α : Type} (entries : Entries) (part : String) (default : α)
    (read : Entries → Except SettingsError α) : Except SettingsError α :=
  match lookup? entries part with
  | none => .ok default
  | some .null => .ok default
  | some (.mapping inner) => read inner
  | some _ => .error (.partNotMapping part)

/-- The name of an export; null stands for none. -/
def readName : Value → Except SettingsError (Option String)
  | .null => .ok none
  | v => some <$> readAsText v

/-- The options of a conversion. -/
def readOptions (entries : Entries) : Except SettingsError Options := do
  checkKeys "conversion" optionNames entries
  let defaults : Options := {}
  let typescript ← readOr entries "typescript" defaults.typescript (readBool "typescript")
  let memo ← readOr entries "memo" defaults.memo (readBool "memo")
  let passProps ← readOr entries "pass_props" defaults.passProps (readBool "pass_props")
  let minify ← readOr entries "minify" defaults.minify (readBool "minify")
  let removeIds ← readOr entries "remove_ids" defaults.removeIds (readBool "remove_ids")
  let omitImports ← readOr entries "omit_imports" defaults.omitImports (readBool "omit_imports")
  let optimizeSvg ← readOr entries "optimize_svg" defaults.optimizeSvg (readBool "optimize_svg")
  let useFormatter ← readOr entries "use_formatter" defaults.useFormatter
    (readBool "use_formatter")
  let exportStyle ← readOr entries "export_style" defaults.exportStyle
    (readChoice "export_style" ExportStyle.names)
  let exportName ← readOr entries "export_name" defaults.exportName readName
  let quotes ← readOr entries "quotes" defaults.quotes (readChoice "quotes" quoteNames)
  let optimizer ← readPart entries "optimizer" defaults.optimizer readOptimizer
  let formatter ← readPart entries "formatter" defaults.formatter readFormatter
  return { typescript, memo, passProps, minify, removeIds, omitImports, exportStyle, exportName,
           quotes, optimizeSvg, optimizer, useFormatter, formatter }

/-- The options of a settings document. An empty document stands for the defaults. -/
def readDocument : Value → Except SettingsError Options
  | .null => .ok {}
  | .mapping entries => readOptions entries
  | _ => .error .documentNotMapping

end SvgComponent.Settings
