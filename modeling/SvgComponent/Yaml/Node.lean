import SvgComponent.Yaml.Token

/-!
# Nodes of a document

A document is one node: a scalar, a sequence of nodes, or a mapping from nodes to nodes. An alias
stands for the node that its anchor names.

* `Node`: a node with its tag, if it has one.
* `Reading`: the tokens that are left and the anchors so far.
* `documentNode`: the node of a document, `none` for an empty one.
-/

namespace SvgComponent.Yaml

/-- A node and where it starts. -/
inductive Node where
  /-- A scalar; what it stands for is found from its text if it is plain and has no tag. -/
  | scalar (tag : Option String) (text : String) (plain : Bool) (mark : Mark)
  | sequence (tag : Option String) (items : List Node) (mark : Mark)
  | mapping (tag : Option String) (entries : List (Node × Node)) (mark : Mark)
  deriving Repr

/-- Where a node starts. -/
def Node.mark : Node → Mark
  | .scalar _ _ _ m => m
  | .sequence _ _ m => m
  | .mapping _ _ m => m

/-- What kind of node it is. -/
def Node.kind : Node → String
  | .scalar _ _ _ _ => "scalar"
  | .sequence _ _ _ => "sequence"
  | .mapping _ _ _ => "mapping"

/-- The node that stands where none is written. -/
def Node.empty (mark : Mark) : Node := .scalar none "" true mark

/-- A node that has been named; it has no content while it is being read. -/
structure Named where
  name : String
  mark : Mark
  node : Option Node
  deriving Repr

/-- What is left to be read. -/
structure Reading where
  tokens : List Token
  /-- What is wrong behind the tokens. -/
  problem : Problem
  anchors : List Named := []
  deriving Repr

/-- Reading that may stop at a problem. -/
abbrev Read := StateT Reading (Except Problem)

namespace Read

/-- The next token. -/
def peek : Read Token := do
  let r ← get
  match r.tokens with
  | t :: _ => return t
  | [] => throw r.problem

/-- The next token, which is taken. -/
def next : Read Token := do
  let t ← peek
  modify fun r => { r with tokens := r.tokens.tail }
  return t

/-- Whether the next token is one of a kind. -/
def check (p : Lexeme → Bool) : Read Bool := return p (← peek).lexeme

/-- Takes the next token if it is the one given. -/
def accept (l : Lexeme) : Read (Option Token) := do
  if ← check (· == l) then return some (← next) else return none

end Read

open Read

/-- The place behind a token of one character. -/
def Token.after (t : Token) : Mark := ⟨t.mark.line, t.mark.column + 1⟩

/-! ## Properties -/

/-- The anchor and the tag in front of a node. -/
structure Properties where
  anchor : Option String := none
  /-- The handle and the rest of the tag, and where it stands. -/
  tag : Option (Option String × String × Mark) := none
  /-- Where the first of them stands. -/
  start : Option Mark := none
  deriving DecidableEq, Repr

/-- An anchor, if one is next and there was none. -/
def readAnchor (p : Properties) : Read Properties := do
  let t ← peek
  match t.lexeme, p.anchor with
  | .anchor name, none =>
    let _ ← next
    return { p with anchor := some name, start := p.start.or (some t.mark) }
  | _, _ => return p

/-- A tag, if one is next and there was none. -/
def readTag (p : Properties) : Read Properties := do
  let t ← peek
  match t.lexeme, p.tag with
  | .tag handle suffix, none =>
    let _ ← next
    return { p with tag := some (handle, suffix, t.mark), start := p.start.or (some t.mark) }
  | _, _ => return p

/-- The properties of a node, in either order. -/
def readProperties : Read Properties := do
  let p ← readAnchor {}
  let p ← readTag p
  if p.tag.isSome then readAnchor p else return p

/-- What the handle of a tag stands for. -/
def tagHandles : List (String × String) := [("!", "!"), ("!!", "tag:yaml.org,2002:")]

/-- The tag of a node in full. -/
def Properties.fullTag (p : Properties) : Except Problem (Option String) :=
  match p.tag with
  | none => .ok none
  | some (none, suffix, _) => .ok (some suffix)
  | some (some handle, suffix, mark) =>
    match tagHandles.lookup handle with
    | some start => .ok (some (start ++ suffix))
    | none => .error (.during .node (p.start.getD mark) (.undefinedHandle handle) mark)

/-- The tag of a node, without the one that says nothing. -/
def specificTag (tag : Option String) : Option String := tag.filter (· != "!")

/-! ## Anchors -/

/-- Gives a name to the node that starts at a place and is read next. -/
def openAnchor (anchor : Option String) (mark : Mark) : Read Unit := do
  match anchor with
  | none => return
  | some name =>
    match (← get).anchors.find? (·.name == name) with
    | some first => throw (.during (.firstAnchor name) first.mark .secondAnchor mark)
    | none => modify fun r => { r with anchors := r.anchors ++ [⟨name, mark, none⟩] }

/-- The node that has been given a name. -/
def closeAnchor (anchor : Option String) (node : Node) : Read Node := do
  modify fun r => { r with
    anchors := r.anchors.map fun a =>
      if anchor = some a.name then { a with node := some node } else a }
  return node

/-- The node that an alias stands for. A node is no part of itself. -/
def named (name : String) (mark : Mark) : Read Node := do
  match (← get).anchors.find? (·.name == name) with
  | some { node := some node, .. } => return node
  | _ => throw { cause := .undefinedAlias name, mark }

/-! ## Nodes -/

/-- The lexemes that end an entry without content. -/
def endsBlockItem (l : Lexeme) : Bool := l == .blockEntry || l == .blockEnd
def endsBlockField (l : Lexeme) : Bool := l == .key || l == .value || l == .blockEnd
def endsIndentlessItem (l : Lexeme) : Bool := l == .blockEntry || endsBlockField l
def endsFlowValue (closing l : Lexeme) : Bool := l == .flowEntry || l == closing
def endsFlowKey (closing l : Lexeme) : Bool := l == .value || endsFlowValue closing l

/-- Which nodes may stand somewhere. -/
inductive Place where
  /-- Flow collections and scalars. -/
  | flow
  /-- Block collections as well. -/
  | block
  /-- Also a block sequence that is not indented. -/
  | field
  deriving DecidableEq, Repr

/-- The problem of a token where a node should start. -/
def noContent (place : Place) (start : Mark) (t : Token) : Problem :=
  .during (if place = .flow then .flowNode else .blockNode) start
    (.expectedToken "the node content" t.lexeme.name) t.mark

/-- The problem of a token that does not belong to a block collection. -/
def noBlockEnd (context : Context) (start : Mark) (t : Token) : Problem :=
  .during context start (.expectedToken "<block end>" t.lexeme.name) t.mark

/-- The problem of a token behind an entry of a flow collection. -/
def noComma (context : Context) (start : Mark) (closing : Lexeme) (t : Token) : Problem :=
  .during context start (.expectedInFlow closing.name t.lexeme.name) t.mark

/-- Goes to the next entry of a flow collection, or to its end: `false`. -/
def nextFlowEntry (context : Context) (start : Mark) (closing : Lexeme) (first : Bool) :
    Read Bool := do
  if (← accept closing).isSome then return false
  else
    unless first do
      if (← accept .flowEntry).isNone then throw (noComma context start closing (← peek))
    return (← accept closing).isNone

mutual

/-- A node. -/
def readNode (place : Place) : Nat → Read Node
  | 0 => do throw (← get).problem
  | fuel + 1 => do
    let t ← peek
    if let .alias name := t.lexeme then
      let _ ← next
      named name t.mark
    else
      let p ← readProperties
      let tag ← p.fullTag
      let t ← peek
      let start := p.start.getD t.mark
      let anchored (read : Read Node) : Read Node := do
        openAnchor p.anchor start
        closeAnchor p.anchor (← read)
      match t.lexeme with
      | .scalar text plain =>
        let _ ← next
        let node := .scalar (specificTag tag) text (plain || tag == some "!") start
        anchored (return node)
      | .flowSequenceStart =>
        let _ ← next
        anchored do return .sequence (specificTag tag) (← readFlowSequence t.mark true fuel) start
      | .flowMappingStart =>
        let _ ← next
        anchored do return .mapping (specificTag tag) (← readFlowMapping t.mark true fuel) start
      | l =>
        if l = .blockEntry ∧ place = .field then
          anchored do return .sequence (specificTag tag) (← readIndentless fuel) start
        else if l = .blockSequenceStart ∧ place ≠ .flow then
          let _ ← next
          anchored do return .sequence (specificTag tag) (← readBlockSequence t.mark fuel) start
        else if l = .blockMappingStart ∧ place ≠ .flow then
          let _ ← next
          anchored do return .mapping (specificTag tag) (← readBlockMapping t.mark fuel) start
        else if p.start.isSome then
          let node := .scalar (specificTag tag) "" true start
          anchored (return node)
        else throw (noContent place start t)

/-- A node behind a token, or an empty one if the next token ends it. -/
def readContent (place : Place) (ends : Lexeme → Bool) (mark : Mark) : Nat → Read Node
  | 0 => do throw (← get).problem
  | fuel + 1 => do
    if ← check ends then return .empty mark else readNode place fuel

/-- The value of an entry, which may be missing. -/
def readValue (place : Place) (ends : Lexeme → Bool) : Nat → Read Node
  | 0 => do throw (← get).problem
  | fuel + 1 => do
    match ← accept .value with
    | some t => readContent place ends t.after fuel
    | none => return .empty (← peek).mark

/-- The items of a block sequence. -/
def readBlockSequence (start : Mark) : Nat → Read (List Node)
  | 0 => do throw (← get).problem
  | fuel + 1 => do
    match ← accept .blockEntry with
    | some t =>
      let item ← readContent .block endsBlockItem t.after fuel
      return item :: (← readBlockSequence start fuel)
    | none =>
      if (← accept .blockEnd).isSome then return []
      else throw (noBlockEnd .blockCollection start (← peek))

/-- The items of a block sequence that is not indented; nothing marks its end. -/
def readIndentless : Nat → Read (List Node)
  | 0 => do throw (← get).problem
  | fuel + 1 => do
    match ← accept .blockEntry with
    | some t =>
      let item ← readContent .block endsIndentlessItem t.after fuel
      return item :: (← readIndentless fuel)
    | none => return []

/-- The entries of a block mapping. -/
def readBlockMapping (start : Mark) : Nat → Read (List (Node × Node))
  | 0 => do throw (← get).problem
  | fuel + 1 => do
    match ← accept .key with
    | some t =>
      let key ← readContent .field endsBlockField t.after fuel
      let value ← readValue .field endsBlockField fuel
      return (key, value) :: (← readBlockMapping start fuel)
    | none =>
      if (← accept .blockEnd).isSome then return []
      else throw (noBlockEnd .blockMapping start (← peek))

/-- The items of a flow sequence. An entry with a key is a mapping of its own. -/
def readFlowSequence (start : Mark) (first : Bool) : Nat → Read (List Node)
  | 0 => do throw (← get).problem
  | fuel + 1 => do
    if ← nextFlowEntry .flowSequence start .flowSequenceEnd first then
      let item ← match ← accept .key with
        | some t => do
          let key ← readContent .flow (endsFlowKey .flowSequenceEnd) t.after fuel
          let value ← readValue .flow (endsFlowValue .flowSequenceEnd) fuel
          pure (.mapping none [(key, value)] t.mark)
        | none => readNode .flow fuel
      return item :: (← readFlowSequence start false fuel)
    else return []

/-- The entries of a flow mapping. An entry may be a key alone. -/
def readFlowMapping (start : Mark) (first : Bool) : Nat → Read (List (Node × Node))
  | 0 => do throw (← get).problem
  | fuel + 1 => do
    if ← nextFlowEntry .flowMapping start .flowMappingEnd first then
      let entry ← match ← accept .key with
        | some t => do
          let key ← readContent .flow (endsFlowKey .flowMappingEnd) t.after fuel
          let value ← readValue .flow (endsFlowValue .flowMappingEnd) fuel
          pure (key, value)
        | none => do
          let key ← readNode .flow fuel
          pure (key, .empty (← peek).mark)
      return entry :: (← readFlowMapping start false fuel)
    else return []

end

/-! ## Documents -/

/-- Directives in front of a document; `seen` tells whether one has given the version. -/
def readDirectives (seen : Bool) : Nat → Read Unit
  | 0 => return
  | fuel + 1 => do
    let t ← peek
    match t.lexeme with
    | .directive version =>
      let _ ← next
      if let some (major, _) := version then
        if seen then throw { cause := .duplicateDirective, mark := t.mark }
        if major ≠ 1 then throw { cause := .incompatibleVersion, mark := t.mark }
      readDirectives (seen || version.isSome) fuel
    | _ => return

/-- Whether a lexeme is a directive. -/
def Lexeme.isDirective : Lexeme → Bool
  | .directive _ => true
  | _ => false

/-- Passes the marks of the end of a document. -/
def skipDocumentEnds : Nat → Read Unit
  | 0 => return
  | fuel + 1 => do
    if (← accept .documentEnd).isSome then skipDocumentEnds fuel

/-- Goes behind the mark of the start of a document, and gives the place where the document starts;
`none` at the end of the text. -/
def readDocumentStart (fuel : Nat) : Read (Option Mark) := do
  skipDocumentEnds fuel
  if ← check (· == .streamEnd) then return none
  else
    let start := (← peek).mark
    readDirectives false fuel
    if (← accept .documentStart).isNone then
      let t ← peek
      throw { cause := .expectedToken "'<document start>'" t.lexeme.name, mark := t.mark }
    return some start

/-- The node behind the mark of the start of a document. -/
def readMarked (fuel : Nat) : Read Node := do
  let ends (l : Lexeme) : Bool :=
    l.isDirective || l == .documentStart || l == .documentEnd || l == .streamEnd
  readContent .block ends (← peek).mark fuel

/-- The node of the only document; `none` if there is no document. -/
def readDocument (fuel : Nat) : Read (Option Node) := do
  let marked ← check fun l => l.isDirective || l == .documentStart || l == .streamEnd
  let root ←
    if marked then do
      match ← readDocumentStart fuel with
      | some _ => some <$> readMarked fuel
      | none => pure none
    else some <$> readNode .block fuel
  match root with
  | none => return none
  | some node =>
    let _ ← accept .documentEnd
    match ← readDocumentStart fuel with
    | some mark => throw (.during .singleDocument node.mark .anotherDocument mark)
    | none => return some node

/-- The node of a document, `none` if it is empty. -/
def documentNode (s : List Char) : Except Problem (Option Node) := do
  let (tokens, problem) := tokenize s
  let problem := problem.getD { cause := .endOfStream, mark := ⟨0, 0⟩ }
  let (node, _) ← (readDocument (4 * tokens.length + 16)).run { tokens, problem }
  return node

end SvgComponent.Yaml
