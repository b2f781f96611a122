import SvgComponent.Jsx.Lines
import SvgComponent.Settings.Options
import SvgComponent.Markup.Tree
import SvgComponent.Text.Line

/-!
# Component source

A component is a function that returns the markup of an `svg` tree, perhaps memoised, bound to a
name by an export statement, with the imports it needs in front.

* `imports`: the import lines.
* `function`: the function, with the markup in it.
* `exported`: the export statement around a function.
* `generate`: the whole source.
-/

namespace SvgComponent.Component

open Text Markup Jsx Settings

/-- Why a tree makes no component. -/
inductive GenerationError where
  /-- Its root is an element with this tag. -/
  | wrongRoot (tag : List Char)
  deriving DecidableEq, Repr

/-- The wording of a generation error. -/
def GenerationError.message : GenerationError → String
  | .wrongRoot tag => "Expected an <svg> root element, got <" ++ String.ofList tag ++ ">"

/-- The part of the root's start tag that passes properties on. -/
def propsSpread : List Char := "\x7b...props\x7d".toList

/-- The parameter of the function. -/
def parameter (o : Options) : List Char :=
  if o.typescript then "props: React.SVGProps<SVGSVGElement>".toList else "props".toList

/-- The import lines that the component needs. -/
def imports (o : Options) : List (List Char) :=
  let source := o.quotes.enclose "react".toList
  let line (names : String) :=
    "import ".toList ++ names.toList ++ " from ".toList ++ source ++ [';']
  if o.omitImports then []
  else match o.typescript, o.memo with
    | true, true => [line "React, \x7b memo \x7d"]
    | true, false => [line "React"]
    | false, true => [line "\x7b memo \x7d"]
    | false, false => []

/-- The function that returns the markup. -/
def function (root : Element) (o : Options) : List Char :=
  let extra := if o.passProps then [propsSpread] else []
  let body := joinLines <|
    [['('] ++ parameter o ++ ") => \x7b".toList, indentUnit ++ "return (".toList] ++
      Jsx.lines o.quotes 2 extra root ++ [indentUnit ++ ");".toList, "\x7d".toList]
  if o.memo then "memo(".toList ++ body ++ [')'] else body

/-- The name under which the component is exported: its own unless another one is given. -/
def exportName (name : List Char) (o : Options) : List Char :=
  match o.exportName with
  | none => name
  | some s => if s.isEmpty then name else s.toList

/-- The statement that exports a component of this name and code. -/
def exported (name code : List Char) (o : Options) : List Char :=
  match o.exportStyle with
  | .default => "export default ".toList ++ code ++ [';']
  | .named =>
    let clause := if exportName name o = name then name
      else name ++ " as ".toList ++ exportName name o
    "const ".toList ++ name ++ " = ".toList ++ code ++ ";\n\nexport \x7b ".toList ++ clause ++
      " \x7d;".toList
  | .const => "export const ".toList ++ exportName name o ++ " = ".toList ++ code ++ [';']

/-- The source of a component of this name. -/
def generate (root : Element) (name : List Char) (o : Options) :
    Except GenerationError (List Char) :=
  if root.tag = rootTag then
    let statement := exported name (function root o) o
    match imports o with
    | [] => .ok statement
    | first :: rest => .ok (joinLines (first :: rest) ++ "\n\n".toList ++ statement)
  else .error (.wrongRoot root.tag)

end SvgComponent.Component
