import SvgComponent.Component
import SvgComponent.Diagnostic
import SvgComponent.Jsx.Adapt
import SvgComponent.Source.Minify
import SvgComponent.Tool.Formatter
import SvgComponent.Tool.Optimizer

/-!
# Conversion

Markup becomes component source in five stages: it is optimized, read, adapted, written, and
formatted. Only reading and writing can end a conversion with an error. If a tool fails, the
conversion goes on without it and reports a warning.

* `Tools`: what a conversion needs from outside, in any monad.
* `prepare`, `finish`: the stages that use tools.
* `convert`: the conversion of a text, with all that came of it.
* `convertToText`: the same as text that can always be shown as source.
-/

namespace SvgComponent

open Settings Tool

/-- What a conversion needs from outside. -/
structure Tools (m : Type → Type) where
  optimize : String → OptimizerOptions → m (Except ToolError String)
  format : String → FormatterOptions → Language → m (Except ToolError String)
  note : LogEntry → m Unit

/-- The tools of a session. -/
def Tools.session : Tools (StateM Session) where
  optimize := Optimizer.run
  format := Formatter.run
  note := Session.note

/-- What came of a conversion. -/
structure Result where
  componentName : String
  source : Option String := none
  error : Option Diagnostic := none
  warnings : List Diagnostic := []
  /-- Whether the optimizer's markup was used. -/
  optimized : Bool := false
  deriving DecidableEq, Repr

/-- Whether the conversion failed. -/
def Result.hasErrors (r : Result) : Bool := r.error.isSome

/-- An error shown as comments. -/
def errorText (message : String) : String :=
  "// Error converting SVG: " ++ message ++
    "\n// Please check your SVG syntax and try again."

/-- The source, or the error shown as comments. -/
def Result.text (r : Result) : String :=
  match r.error with
  | some d => errorText d.message
  | none => r.source.getD ""

/-- A summary of a conversion. -/
def Result.report (r : Result) : String :=
  "\n".intercalate <|
    ["Component: " ++ r.componentName, "Optimized: " ++ (if r.optimized then "yes" else "no")] ++
      r.warnings.map (fun d => "  [WARNING] " ++ d.text) ++
      (match r.error with
        | some d => ["  [ERROR] " ++ d.text, "*** CONVERSION FAILED - No output generated ***"]
        | none => ["Conversion completed successfully."])

/-- A stage that can warn, and crash. -/
structure Attempt (α : Type) where
  warnings : List Diagnostic
  outcome : Except Crash α

variable {m : Type → Type} [Monad m]

/-- Markup from the optimizer, and whether it is: without the optimizer, or if it fails, the markup
stays as it is. -/
def prepare (tools : Tools m) (o : Options) (svg : String) : m (Attempt (String × Bool)) := do
  if o.optimizeSvg then
    match ← tools.optimize svg o.optimizer with
    | .ok optimized => return ⟨[], .ok (optimized, true)⟩
    | .error (.failure message) =>
      tools.note ⟨.warning, .conversion,
        "SVG optimization failed, using original input: " ++ message⟩
      return ⟨[⟨.optimizerFailure, message⟩], .ok (svg, false)⟩
    | .error (.crash c) => return ⟨[], .error c⟩
  else return ⟨[], .ok (svg, false)⟩

/-- The indentation that formatter options ask for. -/
def indentStyle (o : FormatterOptions) : Source.IndentStyle :=
  if o.useTabs then .tab else .spaces o.tabWidth

/-- Source indented as the options say. -/
def indented (o : Options) (source : String) : Except Crash String :=
  match Source.indent (indentStyle o.formatter) source.toList with
  | .ok text => .ok (String.ofList text)
  | .error e => .error (.indentation e)

/-- Source in its final form: minified, or formatted, or, without the formatter or if it fails,
indented. -/
def finish (tools : Tools m) (o : Options) (source : String) : m (Attempt String) := do
  if o.minify then return ⟨[], .ok (String.ofList (Source.minify source.toList))⟩
  else if o.useFormatter then
    match ← tools.format source o.formatter o.language with
    | .ok formatted => return ⟨[], .ok formatted⟩
    | .error (.failure message) =>
      tools.note ⟨.warning, .conversion,
        "Formatting failed, using built-in indenter: " ++ message⟩
      return ⟨[⟨.formatterFailure, message⟩], indented o source⟩
    | .error (.crash c) => return ⟨[], .error c⟩
  else return ⟨[], indented o source⟩

/-- Component source from markup, before it is formatted. -/
def sourceOf (svg name : String) (o : Options) (optimized : Bool) : Except Diagnostic String :=
  match Markup.parse svg.toList with
  | .error e => .error ⟨.noSvgRoot, e.message⟩
  | .ok root =>
    let adapted := Jsx.adapt root (o.removeIds && !optimized)
    match Component.generate adapted name.toList o with
    | .error e => .error ⟨.missingSvgRoot, e.message⟩
    | .ok source => .ok (String.ofList source)

/-- The conversion of markup to the source of a component of this name. Blank markup makes empty
source. -/
def convert (tools : Tools m) (svg name : String) (o : Options) : m (Except Crash Result) := do
  if Text.isBlankText svg.toList then
    return .ok { componentName := name, source := some "" }
  else
    let prepared ← prepare tools o svg
    match prepared.outcome with
    | .error c => return .error c
    | .ok (markup, optimized) =>
      match sourceOf markup name o optimized with
      | .error d =>
        tools.note ⟨.debug, .conversion, "Conversion of " ++ name ++ " failed: " ++ d.message⟩
        return .ok
          { componentName := name, error := some d, warnings := prepared.warnings, optimized }
      | .ok source =>
        let finished ← finish tools o source
        match finished.outcome with
        | .error c => return .error c
        | .ok final =>
          let warnings := prepared.warnings ++ finished.warnings
          tools.note ⟨.debug, .conversion,
            "Converted " ++ name ++ " (" ++ toString warnings.length ++ " warning(s))"⟩
          return .ok { componentName := name, source := some final, warnings, optimized }

/-- The conversion as text that can always be shown as source: errors and crashes are comments. -/
def convertToText (tools : Tools m) (svg name : String) (o : Options) : m String := do
  match ← convert tools svg name o with
  | .ok r => return r.text
  | .error c => return errorText c.report

end SvgComponent
