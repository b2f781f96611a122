import SvgComponent.Files.Path
import SvgComponent.Text.Line
import SvgComponent.Text.Quoted
import SvgComponent.Text.Utf8

/-!
# File trees

The files that a run of the program can see, as a value. A file or directory is known by its place,
the names that lead to it from the working directory or from the root; a place above the working
directory starts with double dots.

* `Entry`, `Access`: what is at a place, and what may be done with it.
* `FileError`, `PathError`: why a path leads nowhere, or why what it leads to cannot be used.
* `FileTree.locate`: the place that a path leads to, over directories and symbolic links.
* `FileTree.find`, `FileTree.read`, `FileTree.write`: what is at a path, and the content of a file.
-/

namespace SvgComponent.Files

open Text

/-! ## Entries -/

/-- What the program may do with a file or directory. -/
structure Access where
  readable : Bool := true
  /-- Whether a file may be written, or a new one be made in a directory. -/
  writable : Bool := true
  /-- Whether the names in a directory may be followed. -/
  searchable : Bool := true
  deriving DecidableEq, Repr

/-- What is at a place. -/
inductive Entry where
  | file (content : List Nat) (access : Access := {})
  | directory (access : Access := {})
  /-- A device, which gives `input` to whoever reads it; `output` was written to it last. -/
  | device (input output : List Nat) (access : Access := {})
  /-- A symbolic link, which stands for another path. -/
  | link (target : Path)
  deriving DecidableEq, Repr

/-- What the program may do with an entry. Links are followed by everyone. -/
def Entry.access : Entry → Access
  | .file _ access => access
  | .directory access => access
  | .device _ _ access => access
  | .link _ => {}

def Entry.isDirectory : Entry → Bool
  | .directory _ => true
  | _ => false

/-- What there is to read in an entry. -/
def Entry.input? : Entry → Option (List Nat)
  | .file content _ => some content
  | .device input _ _ => some input
  | _ => none

/-- What was written to an entry. -/
def Entry.output? : Entry → Option (List Nat)
  | .file content _ => some content
  | .device _ output _ => some output
  | _ => none

/-- The entry with this content written to it. -/
def Entry.put (content : List Nat) : Entry → Entry
  | .file _ access => .file content access
  | .device input _ access => .device input content access
  | e => e

/-! ## Errors -/

/-- What the file system says about a path that it cannot use. -/
inductive FileError where
  | notFound
  | denied
  | notDirectory
  | isDirectory
  | nameTooLong
  | tooManyLinks
  deriving DecidableEq, Repr

/-- The number of a file error. -/
def FileError.code : FileError → Nat
  | .notFound => 2
  | .denied => 13
  | .notDirectory => 20
  | .isDirectory => 21
  | .nameTooLong => 36
  | .tooManyLinks => 40

/-- What a file error says. -/
def FileError.reason : FileError → String
  | .notFound => "No such file or directory"
  | .denied => "Permission denied"
  | .notDirectory => "Not a directory"
  | .isDirectory => "Is a directory"
  | .nameTooLong => "File name too long"
  | .tooManyLinks => "Too many levels of symbolic links"

/-- The wording of a file error at a path. -/
def FileError.message (e : FileError) (p : Path) : String :=
  "[Errno " ++ toString e.code ++ "] " ++ e.reason ++ ": " ++ String.ofList (quoted p.text)

/-- Why a file cannot be read or written. -/
inductive PathError where
  /-- The path has a null character in it, so that the file system cannot be asked for it. -/
  | nullCharacter
  | file (e : FileError)
  deriving DecidableEq, Repr

/-- The wording of an error at a path. -/
def PathError.message (e : PathError) (p : Path) : String :=
  match e with
  | .nullCharacter => "embedded null byte"
  | .file e => e.message p

/-! ## Trees -/

/-- The names that lead to a file or directory. -/
abbrev Place := List (List Char)

/-- Files, directories and links with their places. A file that has several places is the same file at
all of them. -/
structure FileTree where
  entries : List (List Place × Entry) := []
  deriving DecidableEq, Repr

/-- Double dots, the name of the directory above. -/
def above : List Char := ['.', '.']

/-- The place of the root. -/
def rootPlace : Place := [['/']]

/-- Places that are directories in every tree: the working directory and all above it, and the
root. -/
def isAnchor (place : Place) : Bool := place.all (· == above) || place == rootPlace

/-- The place of the directory above. The root is above itself. -/
def parentPlace (place : Place) : Place :=
  if place == rootPlace then place
  else if place.all (· == above) then above :: place
  else place.dropLast

/-- The entry that has a place among its own, if one does. Only a directory can have an anchor. -/
def FileTree.listed? (t : FileTree) (place : Place) : Option (List Place × Entry) :=
  t.entries.find? fun e => e.1.contains place && (e.2.isDirectory || !isAnchor place)

/-- Whether a place leads to others. -/
def FileTree.isOnTheWay (t : FileTree) (place : Place) : Bool :=
  t.entries.any (·.1.any place.isPrefixOf)

/-- What is at a place. A place that leads to others is a directory. -/
def FileTree.lookup? (t : FileTree) (place : Place) : Option Entry :=
  match t.listed? place with
  | some (_, e) => some e
  | none => if isAnchor place || t.isOnTheWay place then some .directory else none

/-! ## Following a path -/

/-- The greatest number of octets in a name. -/
def maxNameLength : Nat := 255

/-- The greatest number of octets in a path. -/
def maxPathLength : Nat := 4095

/-- The greatest number of links that are followed on the way along a path. -/
def maxLinks : Nat := 40

/-- Whether a text has more than `limit` octets. -/
def isTooLong (limit : Nat) (s : List Char) : Bool := limit < (Utf8.encode s).length

/-- The place at which the names of a path start, from a directory. -/
def Path.start (p : Path) (directory : Place) : Place :=
  if p.root.isEmpty then directory else rootPlace

/-- The place that a name leads to from a directory. -/
def nextPlace (directory : Place) (name : List Char) : Place :=
  if name = above then parentPlace directory else directory ++ [name]

/-- Where a path ends: the place, and what is there. -/
abbrev Goal := Place × Option Entry

/-- The end of the names behind a place, where `follow` finds the end of a link. Names are followed in
directories that may be searched. -/
def FileTree.walkWith (t : FileTree) (follow : Place → List (List Char) → Except FileError Goal)
    (place : Place) : List (List Char) → Except FileError Goal
  | [] => .ok (place, t.lookup? place)
  | name :: names =>
    match t.lookup? place with
    | none => .error .notFound
    | some (.directory access) =>
      if !access.searchable then .error .denied
      else if isTooLong maxNameLength name then .error .nameTooLong
      else match t.lookup? (nextPlace place name) with
        | some (.link target) => follow (target.start place) (target.names ++ names)
        | _ => t.walkWith follow (nextPlace place name) names
    | some _ => .error .notDirectory

/-- The end of the names behind a place, where so many links may be followed. -/
def FileTree.walk (t : FileTree) : Nat → Place → List (List Char) → Except FileError Goal
  | 0 => t.walkWith fun _ _ => .error .tooManyLinks
  | links + 1 => t.walkWith (t.walk links)

/-- The place a path leads to, and what is there. The path as a whole is checked before any of its
names is followed. -/
def FileTree.locate (t : FileTree) (p : Path) : Except PathError Goal :=
  if p.text.contains (Char.ofNat 0) then .error .nullCharacter
  else if isTooLong maxPathLength p.text then .error (.file .nameTooLong)
  else (t.walk maxLinks (p.start []) p.names).mapError .file

/-! ## Using a path -/

/-- What is at a path, if there is anything. The question fails if a name is too long or a directory
may not be searched; a path that leads nowhere for another reason has nothing at it. -/
def FileTree.find (t : FileTree) (p : Path) : Except FileError (Option Entry) :=
  match t.locate p with
  | .ok (_, entry) => .ok entry
  | .error (.file .nameTooLong) => .error .nameTooLong
  | .error (.file .denied) => .error .denied
  | .error _ => .ok none

/-- Whether there is anything at a path. -/
def FileTree.has (t : FileTree) (p : Path) : Except FileError Bool :=
  (t.find p).map Option.isSome

/-- Whether there is a directory at a path. -/
def FileTree.isDirectory (t : FileTree) (p : Path) : Except FileError Bool :=
  (t.find p).map (·.any Entry.isDirectory)

/-- The content of the file at a path. -/
def FileTree.read (t : FileTree) (p : Path) : Except PathError (List Nat) := do
  match ← t.locate p with
  | (_, none) => .error (.file .notFound)
  | (_, some entry) =>
    if !entry.access.readable then .error (.file .denied)
    else match entry.input? with
      | none => .error (.file .isDirectory)
      | some content => .ok content

/-- Whether a file may be made at a place. -/
def FileTree.mayAdd (t : FileTree) (place : Place) : Bool :=
  (t.lookup? place.dropLast).any (·.access.writable)

/-- The tree with a new file at a place. -/
def FileTree.add (t : FileTree) (place : Place) (content : List Nat) : FileTree :=
  ⟨t.entries ++ [([place], .file content)]⟩

/-- The tree with this content written to the entry that has a place. -/
def FileTree.put (t : FileTree) (place : Place) (content : List Nat) : FileTree :=
  ⟨t.entries.map fun e => if t.listed? place = some e then (e.1, e.2.put content) else e⟩

/-- The tree with this content in the file at a path, which is made if there is none. -/
def FileTree.write (t : FileTree) (p : Path) (content : List Nat) : Except PathError FileTree := do
  match ← t.locate p with
  | (place, none) =>
    if t.mayAdd place then .ok (t.add place content) else .error (.file .denied)
  | (place, some entry) =>
    if entry.isDirectory then .error (.file .isDirectory)
    else if !entry.access.writable then .error (.file .denied)
    else .ok (t.put place content)

/-- The places and contents of what was written between `before` and `after`. -/
def changes (before after : FileTree) : List (Place × List Nat) :=
  after.entries.filterMap fun e =>
    match e.1, e.2.output? with
    | place :: _, some content => if before.entries.contains e then none else some (place, content)
    | _, _ => none

end SvgComponent.Files
