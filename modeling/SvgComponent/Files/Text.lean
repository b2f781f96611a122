import SvgComponent.Files.Tree

/-!
# Text files

A text file holds UTF-8, and its line breaks count as line feeds.
-/

namespace SvgComponent.Files

open Text

/-- Why a text file cannot be read. -/
inductive ReadError where
  | path (e : PathError)
  | encoding (f : Utf8.Fault)
  deriving DecidableEq, Repr

/-- The wording of a reading error at a path. -/
def ReadError.message (e : ReadError) (p : Path) : String :=
  match e with
  | .path e => e.message p
  | .encoding f => f.message

/-- The text of the file at a path. -/
def readText (files : FileTree) (p : Path) : Except ReadError (List Char) :=
  match files.read p with
  | .error e => .error (.path e)
  | .ok content =>
    match Utf8.decode content with
    | .error f => .error (.encoding f)
    | .ok text => .ok (unifyBreaks text)

/-- An error of a file that is read piece by piece: a character that the end of the file cuts off is
a piece of its own, so its place is counted from its own start. -/
def ReadError.ofPieces : ReadError → ReadError
  | .encoding f => .encoding (if f.reason = .truncated then { f with start := 0 } else f)
  | e => e

end SvgComponent.Files
