import SvgComponent.Settings.Options
import SvgComponent.Tool.Session

/-!
# The formatter of source

The formatter is a program that takes its options as arguments and the source on its standard input.
-/

namespace SvgComponent.Tool.Formatter

open Settings

/-- The formatter's name for a use of trailing commas. -/
def trailingCommaFlag : TrailingComma → String
  | .none => "none"
  | .minimal => "es5"
  | .all => "all"

/-- The formatter's name for a use of parentheses. -/
def arrowParensFlag : ArrowParens → String
  | .avoid => "avoid"
  | .always => "always"

/-- The arguments that say how to format source of a language. -/
def arguments (o : FormatterOptions) (language : Language) : List String :=
  ["--parser", if language = .typescript then "typescript" else "babel",
   "--print-width", toString o.printWidth,
   "--tab-width", toString o.tabWidth,
   "--trailing-comma", trailingCommaFlag o.trailingComma,
   "--arrow-parens", arrowParensFlag o.arrowParens] ++
  (if o.useTabs then ["--use-tabs"] else []) ++
  (if o.semicolons then [] else ["--no-semi"]) ++
  (if o.quoteStyle = .single then ["--single-quote", "--jsx-single-quote"] else []) ++
  (if o.bracketSpacing then [] else ["--no-bracket-spacing"])

/-- What comes of the formatter if its program is missing. The message has the name of the program, so
that it takes one. -/
def absence (o : FormatterOptions) : ToolError :=
  match o.command with
  | [] => .crash .commandEmpty
  | program :: _ => .failure ("Formatter command not found: " ++ program)

/-- The formatted source. -/
def run (source : String) (o : FormatterOptions) (language : Language) :
    StateM Session (Except ToolError String) := do
  if Number.isShowable o.printWidth && Number.isShowable o.tabWidth then
    let command := o.command ++ arguments o language
    Session.note ⟨.debug, .formatter, "Running formatter: " ++ " ".intercalate command⟩
    let reply ← Session.call ⟨command, source, o.timeout⟩
    return outputOf "Formatter" (absence o) o.timeout reply
  else return .error (.crash .argumentTooLong)

end SvgComponent.Tool.Formatter
