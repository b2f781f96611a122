/-!
# Diagnostics

A reported problem: its kind, and a message for people.
-/

namespace SvgComponent

/-- The kinds of reported problems. -/
inductive DiagnosticKind where
  /-- The markup has no complete `svg` element. -/
  | noSvgRoot
  /-- The tree to be written has another root. -/
  | missingSvgRoot
  | optimizerFailure
  | formatterFailure
  deriving DecidableEq, Repr

/-- The name of a kind. -/
def DiagnosticKind.name : DiagnosticKind → String
  | .noSvgRoot => "NoSvgRoot"
  | .missingSvgRoot => "MissingSvgRoot"
  | .optimizerFailure => "OptimizerFailure"
  | .formatterFailure => "FormatterFailure"

/-- A reported problem. -/
structure Diagnostic where
  kind : DiagnosticKind
  message : String
  deriving DecidableEq, Repr

/-- A diagnostic as text. -/
def Diagnostic.text (d : Diagnostic) : String := d.kind.name ++ ": " ++ d.message

end SvgComponent
