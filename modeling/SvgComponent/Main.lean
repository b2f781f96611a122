import SvgComponent.Cli.Run

/-!
# The program

The command line around `Cli.command`: it looks up the files that the arguments name, carries the
run out on them as values, and then prints and writes what came of it. No other programs are run, so
a conversion that asks for the optimizer or the formatter reports them as missing.
-/

namespace SvgComponent

open Files

/-- The places on the way along some names, the last one included. -/
def placesAlong (place : Place) : List (List Char) → List Place
  | [] => []
  | name :: names =>
    let next := if name = above then parentPlace place else place ++ [name]
    next :: placesAlong next names

/-- The places on the way to a path. -/
def Files.Path.places (p : Path) : List Place :=
  placesAlong (if p.root.isEmpty then [] else [['/']]) p.names

/-- A place as the text that opens it. -/
def placeText : Place → String
  | ['/'] :: names => String.ofList ('/' :: ['/'].intercalate names)
  | names => String.ofList (['/'].intercalate names)

/-- The paths that a run with these arguments looks at. -/
def Cli.Arguments.paths (a : Cli.Arguments) : List Path :=
  let name := a.componentName.toList
  let outputs := a.output.toList.flatMap fun p =>
    [p, p.join (Path.ofText (outputName name true)), p.join (Path.ofText (outputName name false))]
  a.file :: a.config.toList ++ outputs

/-- Whether a file can be opened in a mode. -/
def canOpen (place : Place) (mode : IO.FS.Mode) : IO Bool := do
  try
    let _ ← IO.FS.Handle.mk (placeText place) mode
    return true
  catch _ => return false

/-- What is at a place now. The file system follows links by itself, so that none are seen. -/
def lookUp (place : Place) : IO (Option Entry) := do
  try
    if ← (← IO.FS.realPath (placeText place)).isDir then return some .directory
    else
      let readable ← canOpen place .read
      let content ← if readable then IO.FS.readBinFile (placeText place) else pure .empty
      let access := { readable, writable := ← canOpen place .append }
      return some (.file (content.toList.map UInt8.toNat) access)
  catch _ => return none

/-- The files at the paths that a run looks at. -/
def lookUpAll (paths : List Path) : IO FileTree := do
  let places := (paths.flatMap Path.places).eraseDups
  let entries ← places.filterMapM fun place => do
    return (← lookUp place).map ([place], ·)
  return ⟨entries⟩

end SvgComponent

open SvgComponent in
/-- Runs the program on the arguments of the command line. -/
def main (arguments : List String) : IO UInt32 := do
  let files ← match Cli.readArguments arguments with
    | .ok a => lookUpAll a.paths
    | .error _ => pure {}
  match Cli.command .standard "svg-component" arguments files {} with
  | .error e =>
    IO.eprintln e.message
    return 1
  | .ok run =>
    for (place, content) in Files.changes files run.files do
      IO.FS.writeBinFile (placeText place) ⟨(content.map UInt8.ofNat).toArray⟩
    IO.eprint run.stderr
    IO.print run.stdout
    return run.status.toUInt32
