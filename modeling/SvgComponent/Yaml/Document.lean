import SvgComponent.Yaml.Node
import SvgComponent.Yaml.Schema

/-!
# Documents as values

The value that a document holds.

* `DocumentError`: why a document holds none.
* `Node.value`: the value of a node.
* `read`: the value of a document.
-/

namespace SvgComponent.Yaml

open Settings

/-- Why a document holds no value. -/
inductive DocumentError where
  /-- A character that no document has, and the number of characters before it. -/
  | unacceptable (c : Char) (index : Nat)
  /-- An escape for a code that no character has. -/
  | noCharacter (code : Nat)
  | problem (p : Problem)
  | value (f : ValueFault)
  deriving DecidableEq, Repr

/-- The wording of an error in the document of this name. -/
def DocumentError.message (name : String) : DocumentError → String
  | .unacceptable c index =>
    "unacceptable character #x" ++ String.ofList (Text.hexPadded 4 c.toNat) ++
      ": special characters are not allowed\n  in \"" ++ name ++ "\", position " ++ toString index
  | .noCharacter code => noCharacterText code
  | .problem p => p.message name
  | .value f => f.message

/-- The error for a problem. A code that no character has is reported without its place. -/
def DocumentError.ofProblem (p : Problem) : DocumentError :=
  match p.cause with
  | .noCharacter code => .noCharacter code
  | _ => .problem p

/-! ## Values of nodes -/

/-- A tag that the language itself defines. -/
def coreTag (name : String) : String := "tag:yaml.org,2002:" ++ name

/-- The kinds of scalars with their tags. -/
def tagKinds : List (String × Kind) :=
  [Kind.null, .bool, .int, .float, .time, .text].map fun kind => (coreTag kind.name, kind)

/-- The problem of a tag that stands for nothing here. -/
def unknownTag (tag : String) (mark : Mark) : DocumentError :=
  .problem { cause := .unknownTag tag, mark }

/-- The value of a scalar. -/
def scalarValue (tag : Option String) (text : String) (plain : Bool) (mark : Mark) :
    Except DocumentError Value :=
  let kind : Except DocumentError Kind :=
    match tag with
    | none => .ok (if plain then kindOf text else .text)
    | some t =>
      match tagKinds.lookup t with
      | some kind => .ok kind
      | none => .error (unknownTag t mark)
  match kind with
  | .error e => .error e
  | .ok kind =>
    match readScalar kind text with
    | some (.ok v) => .ok v
    | some (.error f) => .error (.value f)
    | none => .error (unknownTag (coreTag kind.name) mark)

/-- What an entry of a mapping is. -/
inductive EntryRole where
  | own
  /-- Entries of other mappings. -/
  | merge
  deriving DecidableEq, Repr

/-- Whether a node is the key that merges other mappings. -/
def Node.role : Node → EntryRole
  | .scalar none text true _ => if kindOf text = .merge then .merge else .own
  | _ => .own

/-- A key: the word for a default value is text here. -/
def keyValue (start : Mark) : Node → Except DocumentError Value
  | .scalar tag text plain mark =>
    if tag = none ∧ plain ∧ kindOf text = .default then .ok (.text text)
    else scalarValue tag text plain mark
  | node => .error (.problem (.during .construction start .unusableKey node.mark))

/-- Checks the tag of a collection. -/
def checkTag (kind : String) (tag : Option String) (mark : Mark) : Except DocumentError Unit :=
  match tag with
  | none => .ok ()
  | some t => if t = coreTag kind then .ok () else .error (unknownTag t mark)

/-- Checks that the entries of a node can be merged into the mapping that starts at a place. -/
def checkMergeable (start : Mark) (node : Node) : Except DocumentError Unit :=
  let refused (cause : Cause) (mark : Mark) : Except DocumentError Unit :=
    .error (.problem (.during .construction start cause mark))
  match node with
  | .mapping _ _ _ => .ok ()
  | .sequence _ items _ =>
    match items.find? (·.kind != "mapping") with
    | some item => refused (.notMergeableItem item.kind) item.mark
    | none => .ok ()
  | .scalar _ _ _ mark => refused (.notMergeable node.kind) mark

/-- The entries of a mapping, or of all mappings of a list; of these the first counts most, so it
comes last. -/
def mergedEntries : Value → Entries
  | .mapping entries => entries
  | .list items =>
    items.reverse.flatMap fun item =>
      match item with
      | .mapping entries => entries
      | _ => []
  | _ => []

/-- A mapping with these entries: of those with the same key the last value counts. -/
def mappingOf (entries : Entries) : Value :=
  .mapping (entries.foldl (fun m e => setEntry m e.1 e.2) [])

mutual

/-- The value of a node. -/
def Node.value : Node → Except DocumentError Value
  | .scalar tag text plain mark => scalarValue tag text plain mark
  | .sequence tag items mark => do
    checkTag "seq" tag mark
    return .list (← Node.itemValues items)
  | .mapping tag entries mark => do
    checkTag "map" tag mark
    let (merged, own) ← Node.entryValues mark entries
    return mappingOf (merged ++ own)

/-- The values of the items of a sequence. -/
def Node.itemValues : List Node → Except DocumentError (List Value)
  | [] => .ok []
  | item :: rest => do
    let v ← item.value
    return v :: (← Node.itemValues rest)

/-- The entries that a mapping takes from others, and its own ones. -/
def Node.entryValues (start : Mark) :
    List (Node × Node) → Except DocumentError (Entries × Entries)
  | [] => .ok ([], [])
  | (key, node) :: rest => do
    match key.role with
    | .merge =>
      checkMergeable start node
      let v ← node.value
      let (merged, own) ← Node.entryValues start rest
      return (mergedEntries v ++ merged, own)
    | .own =>
      let k ← keyValue start key
      let v ← node.value
      let (merged, own) ← Node.entryValues start rest
      return (merged, (k, v) :: own)

end

/-! ## Documents -/

/-- Whether a document may hold a character. -/
def isAcceptable (c : Char) : Bool :=
  let n := c.toNat
  n == 0x09 || n == 0x0A || n == 0x0D || (0x20 ≤ n && n ≤ 0x7E) || n == 0x85 ||
    (0xA0 ≤ n && n ≤ 0xD7FF) || (0xE000 ≤ n && n ≤ 0xFFFD) || 0x10000 ≤ n

/-- The value of a document; an empty one is null. -/
def read (s : List Char) : Except DocumentError Value :=
  match s.dropWhile isAcceptable with
  | c :: rest => .error (.unacceptable c (s.length - (rest.length + 1)))
  | [] =>
    match documentNode s with
    | .error p => .error (.ofProblem p)
    | .ok none => .ok .null
    | .ok (some node) => node.value

/-- The reader of YAML documents. -/
def reader : Settings.DocumentReader DocumentError := ⟨read, DocumentError.message⟩

end SvgComponent.Yaml
