import SvgComponent.Conversion
import SvgComponent.Files.Text

/-!
# Conversion of files

A file is read as UTF-8, its line breaks are unified, and its markup is converted. The component
takes its name from the file unless it is given one.
-/

namespace SvgComponent

open Files Tool Settings

/-- Why the conversion of a file has no result. -/
inductive FileConversionError where
  | read (e : ReadError)
  | crash (c : Crash)
  deriving DecidableEq, Repr

/-- The wording of an error in the conversion of the file at a path. -/
def FileConversionError.message (e : FileConversionError) (p : Path) : String :=
  match e with
  | .read e => e.message p
  | .crash c => c.message

/-- The conversion of the file at a path. -/
def convertFile {m : Type → Type} [Monad m] (tools : Tools m) (files : FileTree) (p : Path)
    (name : Option String) (o : Options) : m (Except FileConversionError Result) := do
  match readText files p with
  | .error e => return .error (.read e)
  | .ok svg =>
    let name := name.getD (String.ofList p.componentName)
    match ← convert tools (String.ofList svg) name o with
    | .error c => return .error (.crash c)
    | .ok r => return .ok r

end SvgComponent
