import SvgComponent.Text.Blank
import SvgComponent.Text.Word

/-!
# Paths

A path is read into its root and the names in it; empty names and single dots say nothing and are
dropped, double dots stay. `Path.text` writes it back.

* `Path.stem`: the last name without its extension.
* `Path.componentName`: a component name made from the words of the stem.
-/

namespace SvgComponent.Files

open Text

/-- A path. -/
structure Path where
  /-- How it starts: with nothing, one slash, or exactly two. -/
  root : List Char := []
  names : List (List Char)
  deriving DecidableEq, Repr

/-- The root of a path given as text. -/
def rootOf (s : List Char) : List Char :=
  if "///".toList.isPrefixOf s then ['/']
  else if "//".toList.isPrefixOf s then ['/', '/']
  else if "/".toList.isPrefixOf s then ['/']
  else []

/-- The path that a text stands for. -/
def Path.ofText (s : List Char) : Path where
  root := rootOf s
  names := (runs (· != '/') s).filter (· != ['.'])

/-- A path as text. A path without root and names is a single dot. -/
def Path.text (p : Path) : List Char :=
  if p.root.isEmpty && p.names.isEmpty then ['.']
  else p.root ++ ['/'].intercalate p.names

/-- The last name of a path, empty if it has none. -/
def Path.name (p : Path) : List Char := p.names.getLastD []

/-- A name without its extension: the part behind the last dot, if that dot is neither the first
nor the last character. -/
def stemOf (name : List Char) : List Char :=
  let extension := (name.reverse.takeWhile (· != '.')).reverse
  let rest := name.take (name.length - extension.length - 1)
  if extension.isEmpty || rest.isEmpty then name else rest

/-- The last name of a path without its extension. -/
def Path.stem (p : Path) : List Char := stemOf p.name

/-- The path behind another one; a path that has a root stays alone. -/
def Path.join (p q : Path) : Path :=
  if q.root.isEmpty then { p with names := p.names ++ q.names } else q

/-! ## Component names -/

/-- The name of a component whose file has no words in its name. -/
def defaultComponentName : List Char := "MyIcon".toList

/-- An ASCII letter in upper case. -/
def upperAscii (c : Char) : Char :=
  if 'a' ≤ c && c ≤ 'z' then Char.ofNat (c.toNat - 32) else c

/-- A word with its first letter in upper case. -/
def capitalize : List Char → List Char
  | [] => []
  | c :: s => upperAscii c :: s

/-- The component name for a file name without its extension: its words of ASCII letters and
digits, each capitalised, put together; a name that would start with a digit is prefixed. -/
def componentNameOf (stem : List Char) : List Char :=
  let name := (runs (fun c => isAsciiLetter c || isAsciiDigit c) stem).flatMap capitalize
  match name with
  | [] => defaultComponentName
  | c :: _ => if isAsciiDigit c then "Svg".toList ++ name else name

/-- The component name for a file. -/
def Path.componentName (p : Path) : List Char := componentNameOf p.stem

/-- The name of the file for a component. -/
def outputName (component : List Char) (typescript : Bool) : List Char :=
  component ++ (if typescript then ".tsx".toList else ".jsx".toList)

end SvgComponent.Files
