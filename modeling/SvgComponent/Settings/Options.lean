import SvgComponent.Jsx.Text
import SvgComponent.Settings.Value

/-!
# Options

What a conversion can be told: `Options`, with a part for the optimizer of markup and one for the
formatter of source. Every option has a default.
-/

namespace SvgComponent.Settings

/-- How the component is exported. -/
inductive ExportStyle where
  | const
  | default
  | named
  deriving DecidableEq, Repr

/-- Where the formatter puts trailing commas. -/
inductive TrailingComma where
  | none
  | minimal
  | all
  deriving DecidableEq, Repr

/-- Whether the formatter puts parentheses around a sole parameter. -/
inductive ArrowParens where
  | avoid
  | always
  deriving DecidableEq, Repr

/-- The language of the source. -/
inductive Language where
  | typescript
  | plain
  deriving DecidableEq, Repr

/-- The time a tool may take, in seconds. -/
def defaultTimeout : Float := 10.0

/-- A plugin of the optimizer, with its parameters if it has any. -/
structure Plugin where
  name : String
  params : Option Entries := none

/-- The plugin as the optimizer takes it: its name alone, or with its parameters. -/
def Plugin.entry (p : Plugin) : Value :=
  match p.params with
  | none => .text p.name
  | some params => .mapping [(.text "name", .text p.name), (.text "params", .mapping params)]

/-- The plugins that run by default. They keep the view box, so that icons scale, and identifiers
that are likely to be referred to. -/
def defaultPlugins : List Plugin :=
  [{ name := "preset-default"
     params := some
       [(.text "overrides", .mapping
         [(.text "removeViewBox", .bool false),
          (.text "cleanupIds", .mapping
            [(.text "preservePrefixes",
              .list [.text "icon-", .text "gradient-", .text "pattern-"])])])] },
   { name := "removeXMLNS" },
   { name := "removeDimensions" },
   { name := "convertPathData" },
   { name := "minifyStyles" },
   { name := "removeUselessStrokeAndFill" },
   { name := "removeUnknownsAndDefaults" }]

/-- Options of the optimizer. -/
structure OptimizerOptions where
  plugins : List Plugin := defaultPlugins
  multipass : Bool := false
  floatPrecision : Option Int := none
  /-- The program that runs the optimizer. -/
  node : String := "node"
  timeout : Float := defaultTimeout

/-- The options as the optimizer takes them. -/
def OptimizerOptions.entries (o : OptimizerOptions) : Entries :=
  [(.text "multipass", .bool o.multipass),
   (.text "plugins", .list (o.plugins.map Plugin.entry))] ++
  match o.floatPrecision with
  | none => []
  | some n => [(.text "floatPrecision", .int n)]

/-- Options of the formatter. -/
structure FormatterOptions where
  printWidth : Int := 80
  tabWidth : Int := 2
  useTabs : Bool := false
  semicolons : Bool := true
  quoteStyle : Jsx.Quote := .double
  trailingComma : TrailingComma := .minimal
  bracketSpacing : Bool := true
  arrowParens : ArrowParens := .avoid
  /-- The command that runs the formatter, and its first arguments. -/
  command : List String := ["prettier"]
  timeout : Float := defaultTimeout

/-- Options of a conversion. -/
structure Options where
  typescript : Bool := true
  /-- Wrap the component so that it renders again only when its properties change. -/
  memo : Bool := true
  /-- Pass the properties of the component on to its root element. -/
  passProps : Bool := true
  minify : Bool := false
  removeIds : Bool := false
  omitImports : Bool := false
  exportStyle : ExportStyle := .const
  exportName : Option String := none
  quotes : Jsx.Quote := .double
  optimizeSvg : Bool := false
  optimizer : OptimizerOptions := {}
  useFormatter : Bool := false
  formatter : FormatterOptions := {}

/-- The language of the source. -/
def Options.language (o : Options) : Language := if o.typescript then .typescript else .plain

/-! ## Words for choices -/

/-- The names of the export styles. -/
def ExportStyle.names : List (String × ExportStyle) :=
  [("const", .const), ("default", .default), ("named", .named)]

/-- The names of the quotation marks. -/
def quoteNames : List (String × Jsx.Quote) := [("double", .double), ("single", .single)]

/-- The names of the uses of trailing commas. -/
def TrailingComma.names : List (String × TrailingComma) :=
  [("none", .none), ("minimal", .minimal), ("all", .all)]

/-- The names of the uses of parentheses. -/
def ArrowParens.names : List (String × ArrowParens) := [("avoid", .avoid), ("always", .always)]

/-- The name of a language. -/
def Language.name : Language → String
  | .typescript => "typescript"
  | .plain => "plain"

end SvgComponent.Settings
