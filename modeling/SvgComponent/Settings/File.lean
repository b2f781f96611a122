import SvgComponent.Files.Text
import SvgComponent.Settings.Read

/-!
# Options files

An options file is a document with a mapping; an empty one sets nothing. What language the document is
in is up to the reader.
-/

namespace SvgComponent.Settings

open Files

/-- Why an options file is refused, where documents are refused for errors of type `ε`. -/
inductive OptionsFileError (ε : Type) where
  | read (e : ReadError)
  | document (e : ε)
  | settings (e : SettingsError)

section
variable {ε : Type} (reader : DocumentReader ε)

/-- The wording of an error in the options file at a path. -/
def OptionsFileError.message (e : OptionsFileError ε) (p : Path) : String :=
  match e with
  | .read e => e.message p
  | .document e => reader.wording (String.ofList p.text) e
  | .settings e => e.message

/-- The options in the file at a path. -/
def readOptionsFile (files : FileTree) (p : Path) : Except (OptionsFileError ε) Options :=
  match readText files p with
  | .error e => .error (.read e.ofPieces)
  | .ok text =>
    match reader.read text with
    | .error e => .error (.document e)
    | .ok v =>
      match readDocument v with
      | .error e => .error (.settings e)
      | .ok o => .ok o

end

end SvgComponent.Settings
