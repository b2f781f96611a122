import SvgComponent.Cli.Arguments

/-!
# How the program is used

The text that tells how the program is used has the options twice: in short, filled into lines, and
one by one with what they do.

* `OptionHelp`, `optionHelps`: what is told about an option.
* `usage`: the options in short.
* `helpText`: the whole text.
-/

namespace SvgComponent.Cli

open Settings

/-- What is told about an option. -/
structure OptionHelp where
  spellings : List String
  /-- What stands for its value, if it needs one. -/
  value : Option String := none
  /-- Whether its spellings turn it on and off. -/
  isSwitch : Bool := false
  help : String
  deriving DecidableEq, Repr

/-- The choices of an option that has some. -/
def choicesText {α : Type} (choices : List (String × α)) : String :=
  "\x7b" ++ ",".intercalate (choices.map (·.1)) ++ "\x7d"

/-- What is told about the options. -/
def optionHelps : List OptionHelp :=
  [{ spellings := ["-h", "--help"], help := "show this help message and exit" },
   { spellings := ["--name", "-n"], value := some "NAME",
     help := "Component name (default: derived from file name)" },
   { spellings := ["--config", "-c"], value := some "CONFIG", help := "Path to YAML options file" },
   { spellings := ["--output", "-o"], value := some "OUTPUT",
     help := "Output file or directory (default: stdout)" },
   { spellings := ["--typescript", "--no-typescript"], isSwitch := true, help := "Emit TypeScript" },
   { spellings := ["--memo", "--no-memo"], isSwitch := true, help := "Wrap in memo()" },
   { spellings := ["--props", "--no-props"], isSwitch := true,
     help := "Spread props onto the root svg" },
   { spellings := ["--minify"], help := "Minify output" },
   { spellings := ["--remove-ids"], help := "Remove id attributes" },
   { spellings := ["--omit-imports"], help := "Do not emit import lines" },
   { spellings := ["--export-style"], value := some (choicesText ExportStyle.names),
     help := "Export form" },
   { spellings := ["--export-name"], value := some "EXPORT_NAME",
     help := "Export name for named exports" },
   { spellings := ["--quotes"], value := some (choicesText quoteNames),
     help := "Attribute quote style" },
   { spellings := ["--optimize"], help := "Optimize with SVGO" },
   { spellings := ["--format"], help := "Format with Prettier" },
   { spellings := ["--verbose", "-v"], help := "Show debug logging" }]

/-- A spelling with what stands for the value. -/
def OptionHelp.withValue (h : OptionHelp) (spelling : String) : String :=
  match h.value with
  | none => spelling
  | some value => spelling ++ " " ++ value

/-- An option in short: both sides of a switch, and the first spelling of any other option. -/
def OptionHelp.brief (h : OptionHelp) : String :=
  let spellings := if h.isSwitch then h.spellings else h.spellings.take 1
  "[" ++ " | ".intercalate (spellings.map h.withValue) ++ "]"

/-- A number of spaces. -/
def spaces (n : Nat) : String := "".pushn ' ' n

/-- The column behind which no line of the text goes. -/
def usageWidth : Nat := 78

/-- Words filled into lines that start at the column `indent`, with `line` filled up to `column`. -/
def fill (indent column : Nat) (line : List String) : List String → List (List String)
  | [] => if line.isEmpty then [] else [line]
  | word :: words =>
    if column + word.length > usageWidth && !line.isEmpty then
      line :: fill indent (indent + word.length + 1) [word] words
    else fill indent (column + word.length + 1) (line ++ [word]) words

/-- The options in short. They stand behind the name of the program, or below it if it is long. -/
def usage (program : String) : String :=
  let start := "usage: "
  let words := optionHelps.map OptionHelp.brief
  let isLong := 4 * (start.length + program.length) > 3 * usageWidth
  let indent := if isLong then start.length else start.length + program.length + 1
  let lines :=
    if isLong then [program] :: fill indent start.length [] words
    else fill indent start.length [] (program :: words)
  start ++ ("\n" ++ spaces indent).intercalate ((lines ++ [["svg_file"]]).map " ".intercalate) ++ "\n"

/-- A line of the list of options: what it is about, and what it does from the column 24 on, below if
there is no room. -/
def helpLine (subject help : String) : String :=
  if subject.length ≤ 20 then
    "  " ++ subject ++ spaces (22 - subject.length) ++ help ++ "\n"
  else "  " ++ subject ++ "\n" ++ spaces 24 ++ help ++ "\n"

/-- The examples at the end of the text. -/
def examples (program : String) : String :=
  "Examples:\n  # Print a TypeScript component to stdout\n  " ++ program ++ " arrow-left.svg\n\n" ++
    "  # Plain JSX with a default export, written to a directory\n  " ++ program ++
    " arrow-left.svg --no-typescript --export-style default -o src/icons/\n\n" ++
    "  # Options from a YAML file, with SVGO and Prettier enabled\n  " ++ program ++
    " icon.svg --config svg-jsx.yaml --optimize --format -o Icon.tsx\n"

/-- How the program is used. -/
def helpText (program : String) : String :=
  usage program ++ "\nConvert an SVG file into a React component.\n\npositional arguments:\n" ++
    helpLine "svg_file" "Path to SVG file to convert" ++ "\noptions:\n" ++
    String.join (optionHelps.map fun h =>
      helpLine (", ".intercalate (h.spellings.map h.withValue)) h.help) ++
    "\n" ++ examples program

end SvgComponent.Cli
