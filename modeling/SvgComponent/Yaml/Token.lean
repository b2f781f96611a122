import SvgComponent.Yaml.Scalar

/-!
# Tokens of a document

The structure of a document is made explicit in its tokens: the indentation of block collections
becomes tokens for their start and end, and a key is marked even if only the colon behind it tells
that it is one.

* `Lexeme`, `Token`: what is read, and where.
* `Layout`: the state of reading, with the open indentations and the places where a key may have
  begun.
* `tokenize`: the tokens of a document, up to the first problem if there is one.
-/

namespace SvgComponent.Yaml

/-- What a token says. -/
inductive Lexeme where
  | streamEnd
  /-- A directive; the version is that of a directive for the language itself. -/
  | directive (version : Option (Nat × Nat))
  | documentStart
  | documentEnd
  | blockSequenceStart
  | blockMappingStart
  | blockEnd
  | flowSequenceStart
  | flowSequenceEnd
  | flowMappingStart
  | flowMappingEnd
  | key
  | value
  | blockEntry
  | flowEntry
  | alias (name : String)
  | anchor (name : String)
  /-- A tag; without a handle it is given in full. -/
  | tag (handle : Option String) (suffix : String)
  | scalar (text : String) (plain : Bool)
  deriving DecidableEq, Repr

/-- How a token is called. -/
def Lexeme.name : Lexeme → String
  | .streamEnd => "<stream end>"
  | .directive _ => "<directive>"
  | .documentStart => "<document start>"
  | .documentEnd => "<document end>"
  | .blockSequenceStart => "<block sequence start>"
  | .blockMappingStart => "<block mapping start>"
  | .blockEnd => "<block end>"
  | .flowSequenceStart => "["
  | .flowSequenceEnd => "]"
  | .flowMappingStart => "\x7b"
  | .flowMappingEnd => "\x7d"
  | .key => "?"
  | .value => ":"
  | .blockEntry => "-"
  | .flowEntry => ","
  | .alias _ => "<alias>"
  | .anchor _ => "<anchor>"
  | .tag _ _ => "<tag>"
  | .scalar _ _ => "<scalar>"

/-- A lexeme and where it starts. -/
structure Token where
  lexeme : Lexeme
  mark : Mark
  deriving DecidableEq, Repr

/-- A place where a key may have begun. -/
structure KeyStart where
  /-- The number of tokens before it. -/
  tokens : Nat
  /-- Whether a colon has to follow, as nothing else may stand there. -/
  required : Bool
  index : Nat
  mark : Mark
  deriving DecidableEq, Repr

/-- The state of reading. -/
structure Layout where
  cursor : Cursor
  /-- The tokens read, in order. -/
  tokens : List Token := []
  /-- The number of open flow collections. -/
  depth : Nat := 0
  /-- The column of the innermost open block collection, and those of the ones around it. -/
  indent : Int := -1
  outer : List Int := []
  /-- Whether a key may begin here. -/
  keyAllowed : Bool := true
  /-- Where keys may have begun, at most once for each number of open flow collections. -/
  keys : List (Nat × KeyStart) := []
  deriving Repr

namespace Layout

/-- One more token. -/
def push (s : Layout) (lexeme : Lexeme) (mark : Mark) : Layout :=
  { s with tokens := s.tokens ++ [⟨lexeme, mark⟩] }

/-- A token of `width` characters at the cursor. -/
def take (s : Layout) (lexeme : Lexeme) (width : Nat) : Layout :=
  { s.push lexeme s.cursor.mark with cursor := s.cursor.forward width }

/-! ## Keys -/

/-- The problem of a key without its colon. -/
def missingColon (s : Layout) (k : KeyStart) : Problem :=
  .during .simpleKey k.mark .missingColon s.cursor.mark

/-- Whether the text behind the start of a key is still short enough for one: it is on one line and
has at most 1024 characters. -/
def isFresh (s : Layout) (k : KeyStart) : Bool :=
  k.mark.line == s.cursor.line && s.cursor.index - k.index ≤ 1024

/-- Forgets the starts of keys that are too far away. -/
def dropStale (s : Layout) : Except Problem Layout :=
  match s.keys.find? fun k => !s.isFresh k.2 && k.2.required with
  | some (_, k) => .error (s.missingColon k)
  | none => .ok { s with keys := s.keys.filter fun k => s.isFresh k.2 }

/-- Forgets the start of a key among the open flow collections. -/
def dropKey (s : Layout) : Except Problem Layout :=
  match s.keys.lookup s.depth with
  | some k =>
    if k.required then .error (s.missingColon k)
    else .ok { s with keys := s.keys.filter (·.1 != s.depth) }
  | none => .ok s

/-- Notes that a key may begin here, if it may. -/
def noteKey (s : Layout) : Except Problem Layout :=
  if s.keyAllowed then do
    let required := s.depth == 0 && s.indent == s.cursor.column
    let s ← s.dropKey
    let k := KeyStart.mk s.tokens.length required s.cursor.index s.cursor.mark
    return { s with keys := s.keys ++ [(s.depth, k)] }
  else .ok s

/-! ## Indentation -/

/-- Closes the block collections that are further in than a column. -/
def unwind (s : Layout) (column : Int) : Layout :=
  if s.depth = 0 then
    let closed := (s.indent :: s.outer).takeWhile (column < ·)
    let left := (s.indent :: s.outer).drop closed.length
    { s with
      tokens := s.tokens ++ closed.map fun _ => ⟨.blockEnd, s.cursor.mark⟩
      indent := left.headD (-1)
      outer := left.tail }
  else s

/-- Opens a block collection at a column, if that is further in than the innermost one: its start
is put in front of all but the first `before` tokens. -/
def openBlock (s : Layout) (lexeme : Lexeme) (column : Nat) (before : Nat) (mark : Mark) : Layout :=
  if s.indent < column then
    { s with
      tokens := s.tokens.take before ++ ⟨lexeme, mark⟩ :: s.tokens.drop before
      indent := column
      outer := s.indent :: s.outer }
  else s

/-- Opens a block collection at the cursor. -/
def openBlockHere (s : Layout) (lexeme : Lexeme) : Layout :=
  s.openBlock lexeme s.cursor.column s.tokens.length s.cursor.mark

/-! ## Structure -/

/-- The cursor at the next token: behind spaces, comments and line breaks. A key may begin on a new
line outside flow collections. -/
def skipToToken (s : Layout) : Nat → Layout
  | 0 => s
  | fuel + 1 =>
    let c := s.cursor.skipWhile (· == ' ')
    let c := if c.isAt '#' then c.restOfLine.2 else c
    match c.lineBreak with
    | ([], _) => { s with cursor := c }
    | (_, c) =>
      skipToToken { s with cursor := c, keyAllowed := s.keyAllowed || s.depth == 0 } fuel

/-- Ends all block collections, as a document does. -/
def endBlocks (s : Layout) : Except Problem Layout := do
  let s ← (s.unwind (-1)).dropKey
  return { s with keyAllowed := false }

/-- A token that opens a flow collection. -/
def openFlow (s : Layout) (lexeme : Lexeme) : Except Problem Layout := do
  let s ← s.noteKey
  return { s with depth := s.depth + 1, keyAllowed := true }.take lexeme 1

/-- A token that closes a flow collection. -/
def closeFlow (s : Layout) (lexeme : Lexeme) : Except Problem Layout := do
  let s ← s.dropKey
  return { s with depth := s.depth - 1, keyAllowed := false }.take lexeme 1

/-- The comma of a flow collection. -/
def flowEntry (s : Layout) : Except Problem Layout := do
  let s ← { s with keyAllowed := true }.dropKey
  return s.take .flowEntry 1

/-- The dash of a block sequence. -/
def blockEntry (s : Layout) : Except Problem Layout := do
  let s ←
    if s.depth = 0 then
      if s.keyAllowed then pure (s.openBlockHere .blockSequenceStart)
      else throw { cause := .sequenceNotAllowed, mark := s.cursor.mark }
    else pure s
  let s ← { s with keyAllowed := true }.dropKey
  return s.take .blockEntry 1

/-- The question mark of a key. -/
def explicitKey (s : Layout) : Except Problem Layout := do
  let s ←
    if s.depth = 0 then
      if s.keyAllowed then pure (s.openBlockHere .blockMappingStart)
      else throw { cause := .keyNotAllowed, mark := s.cursor.mark }
    else pure s
  let s ← { s with keyAllowed := s.depth == 0 }.dropKey
  return s.take .key 1

/-- The colon of a value. If a key may have begun before it, it did. -/
def value (s : Layout) : Except Problem Layout := do
  match s.keys.lookup s.depth with
  | some k =>
    let s := { s with
      keys := s.keys.filter (·.1 != s.depth)
      tokens := s.tokens.take k.tokens ++ Token.mk .key k.mark :: s.tokens.drop k.tokens
      keyAllowed := false }
    let s :=
      if s.depth = 0 then s.openBlock .blockMappingStart k.mark.column k.tokens k.mark else s
    return s.take .value 1
  | none =>
    let s ←
      if s.depth = 0 then
        if s.keyAllowed then pure (s.openBlockHere .blockMappingStart)
        else throw { cause := .valueNotAllowed, mark := s.cursor.mark }
      else pure s
    let s ← { s with keyAllowed := s.depth == 0 }.dropKey
    return s.take .value 1

/-! ## Directives, anchors and tags -/

/-- Characters of the names of directives, anchors and tag handles. -/
def isNameChar (c : Char) : Bool :=
  ('0' ≤ c && c ≤ '9') || ('A' ≤ c && c ≤ 'Z') || ('a' ≤ c && c ≤ 'z') || c == '-' || c == '_'

/-- A name at the cursor, which must not be empty, and the cursor behind it. -/
def readName (context : Context) (start : Mark) (c : Cursor) :
    Except Problem (List Char × Cursor) :=
  match c.rest.takeWhile isNameChar with
  | [] =>
    let cause := .expected "alphabetic or numeric character" c.peek
    .error (.during context start cause c.mark)
  | name => .ok (name, c.forward name.length)

/-- The problem of a name that goes on with another character. -/
def badName (context : Context) (start : Mark) (c : Cursor) : Problem :=
  .during context start (.expected "alphabetic or numeric character" c.peek) c.mark

/-- A number of a version, and the cursor behind it. -/
def versionNumber (start : Mark) (c : Cursor) : Except Problem (Nat × Cursor) :=
  match c.rest.takeWhile fun ch => '0' ≤ ch && ch ≤ '9' with
  | [] => .error (.during .directive start (.expected "a digit" c.peek) c.mark)
  | digits =>
    .ok (digits.foldl (fun n d => n * 10 + (d.toNat - '0'.toNat)) 0, c.forward digits.length)

/-- The version that a directive gives, and the cursor behind it. -/
def version (start : Mark) (c : Cursor) : Except Problem ((Nat × Nat) × Cursor) := do
  let (major, c) ← versionNumber start (c.skipWhile (· == ' '))
  if c.isAt '.' then
    let (minor, c) ← versionNumber start c.step
    if atLineEnd c.peek || c.isAt ' ' then return ((major, minor), c)
    else throw (.during .directive start (.expected "a digit or ' '" c.peek) c.mark)
  else throw (.during .directive start (.expected "a digit or '.'" c.peek) c.mark)

/-- A directive. Only the version of the language is kept. -/
def directive (s : Layout) : Except Problem Layout := do
  let s ← s.endBlocks
  let start := s.cursor.mark
  let (name, c) ← readName .directive start s.cursor.step
  unless atLineEnd c.peek || c.isAt ' ' do throw (badName .directive start c)
  let (found, c) ←
    if name = "YAML".toList then do
      let (v, c) ← version start c
      pure (some v, c)
    else pure (none, c.restOfLine.2)
  let c := c.skipWhile (· == ' ')
  let c := if c.isAt '#' then c.restOfLine.2 else c
  if atLineEnd c.peek then
    return { s.push (.directive found) start with cursor := c.lineBreak.2 }
  else
    throw (.during .directive start (.expected "a comment or a line break" c.peek) c.mark)

/-- Characters that may stand behind a name of an anchor. -/
def endsAnchor (c : Option Char) : Bool :=
  atGap c || c.any fun ch =>
    ch == '?' || ch == ':' || ch == ',' || ch == ']' || ch == '\x7d' || ch == '%' || ch == '@' ||
      ch == '\x60'

/-- An anchor or an alias. -/
def anchor (s : Layout) (context : Context) (lexeme : String → Lexeme) : Except Problem Layout := do
  let s ← s.noteKey
  let start := s.cursor.mark
  let (name, c) ← readName context start s.cursor.step
  if endsAnchor c.peek then
    return { s.push (lexeme (String.ofList name)) start with cursor := c, keyAllowed := false }
  else throw (badName context start c)

/-- Characters of tags. -/
def isTagChar (c : Char) : Bool :=
  isNameChar c || c == ';' || c == '/' || c == '?' || c == ':' || c == '@' || c == '&' ||
    c == '=' || c == '+' || c == '$' || c == ',' || c == '.' || c == '!' || c == '~' ||
    c == '*' || c == '\'' || c == '(' || c == ')' || c == '[' || c == ']' || c == '%'

/-- The characters of a tag, of which there must be some, and the cursor behind them. -/
def tagText (start : Mark) (c : Cursor) : Except Problem (String × Cursor) :=
  match c.rest.takeWhile isTagChar with
  | [] => .error (.during .tagText start (.expected "URI" c.peek) c.mark)
  | text => .ok (String.ofList text, c.forward text.length)

/-- The handle of a tag, from one `!` to the next, and the cursor behind it. -/
def tagHandle (start : Mark) (c : Cursor) : Except Problem (String × Cursor) :=
  let name := c.step.rest.takeWhile isNameChar
  let after := c.forward (name.length + 1)
  if after.isAt '!' then .ok (String.ofList ('!' :: name ++ ['!']), after.step)
  else .error (.during .tag start (.expected "'!'" after.peek) after.mark)

/-- A tag. -/
def tag (s : Layout) : Except Problem Layout := do
  let s ← s.noteKey
  let c := s.cursor
  let start := c.mark
  let (lexeme, c) ←
    if c.peekAt 1 == some '<' then do
      let (suffix, c) ← tagText start (c.forward 2)
      if c.isAt '>' then pure (Lexeme.tag none suffix, c.step)
      else throw (.during .tagText start (.expected "'>'" c.peek) c.mark)
    else if atGap (c.peekAt 1) then pure (.tag none "!", c.step)
    else if (c.step.rest.takeWhile fun ch => !(isBreak ch || ch == ' ')).contains '!' then do
      let (handle, c) ← tagHandle start c
      let (suffix, c) ← tagText start c
      pure (.tag (some handle) suffix, c)
    else do
      let (suffix, c) ← tagText start c.step
      pure (.tag (some "!") suffix, c)
  if atLineEnd c.peek || c.isAt ' ' then
    return { s.push lexeme start with cursor := c, keyAllowed := false }
  else throw (.during .tag start (.expected "' '" c.peek) c.mark)

/-! ## Scalars -/

/-- A scalar in quotes. -/
def quotedScalar (s : Layout) : Except Problem Layout := do
  let s ← s.noteKey
  let (text, c) ← quoted s.cursor
  return { s.push (.scalar (String.ofList text) false) s.cursor.mark with
    cursor := c, keyAllowed := false }

/-- A block scalar. -/
def blockScalar (s : Layout) (folded : Bool) : Except Problem Layout := do
  let s ← { s with keyAllowed := true }.dropKey
  let (text, c) ← block folded s.indent s.cursor
  return { s.push (.scalar (String.ofList text) false) s.cursor.mark with cursor := c }

/-- A plain scalar. If it ends on a new line, a key may begin there. -/
def plainScalar (s : Layout) : Except Problem Layout := do
  let s ← s.noteKey
  let (text, broken, c) := plain (s.depth != 0) (s.indent + 1) s.cursor
  return { s.push (.scalar (String.ofList text) true) s.cursor.mark with
    cursor := c, keyAllowed := broken }

/-- Characters that start no plain scalar. -/
def isIndicator (c : Char) : Bool :=
  isFlowIndicator c || c == '-' || c == '?' || c == ':' || c == '#' || c == '&' || c == '*' ||
    c == '!' || c == '|' || c == '>' || c == '\'' || c == '"' || c == '%' || c == '@' ||
    c == '\x60'

/-- Whether a plain scalar starts with `c`, with `next` behind it. -/
def startsPlain (s : Layout) (c : Char) (next : Option Char) : Bool :=
  !(atGap (some c) || isIndicator c) ||
    (!atGap next && (c == '-' || (s.depth == 0 && (c == '?' || c == ':'))))

/-! ## Reading on -/

/-- Reads the next token, which starts with `ch`. -/
def token (s : Layout) (ch : Char) : Except Problem Layout :=
  let c := s.cursor
  let gap := atGap (c.peekAt 1)
  let atStart := c.column == 0
  if ch == '%' && atStart then s.directive
  else if ch == '-' && atStart && c.atSeparator then do return (← s.endBlocks).take .documentStart 3
  else if ch == '.' && atStart && c.atSeparator then do return (← s.endBlocks).take .documentEnd 3
  else if ch == '[' then s.openFlow .flowSequenceStart
  else if ch == '\x7b' then s.openFlow .flowMappingStart
  else if ch == ']' then s.closeFlow .flowSequenceEnd
  else if ch == '\x7d' then s.closeFlow .flowMappingEnd
  else if ch == ',' then s.flowEntry
  else if ch == '-' && gap then s.blockEntry
  else if ch == '?' && (s.depth != 0 || gap) then s.explicitKey
  else if ch == ':' && (s.depth != 0 || gap) then s.value
  else if ch == '*' then s.anchor .alias .alias
  else if ch == '&' then s.anchor .anchor .anchor
  else if ch == '!' then s.tag
  else if ch == '|' && s.depth == 0 then s.blockScalar false
  else if ch == '>' && s.depth == 0 then s.blockScalar true
  else if ch == '\'' || ch == '"' then s.quotedScalar
  else if s.startsPlain ch (c.peekAt 1) then s.plainScalar
  else .error { context := some .nextToken, cause := .strayCharacter ch, mark := c.mark }

/-- Reads one more token, behind what separates it from the last one; `true` stands for the end of
the document. -/
def next (s : Layout) : Except Problem (Layout × Bool) := do
  let s ← (s.skipToToken (s.cursor.rest.length + 1)).dropStale
  let s := s.unwind s.cursor.column
  match s.cursor.peek with
  | none => return ((← s.endBlocks).push .streamEnd s.cursor.mark, true)
  | some ch => return (← (← s.token ch).dropStale, false)

/-- The tokens that nothing behind them can change any more: those before the first place where a
key may have begun. -/
def settled (s : Layout) : List Token :=
  s.tokens.take <| s.keys.foldl (fun n k => min n k.2.tokens) s.tokens.length

/-- Reads on to the end of the document or to the first problem. -/
def run (s : Layout) : Nat → List Token × Option Problem
  | 0 => (s.tokens, none)
  | fuel + 1 =>
    match s.next with
    | .error p => (s.settled, some p)
    | .ok (s, true) => (s.tokens, none)
    | .ok (s, false) => s.run fuel

end Layout

/-- The tokens of a document, and the problem that ends them if there is one: what is wrong with the
tokens in front of it is found first. A byte order mark at the start is skipped. -/
def tokenize (s : List Char) : List Token × Option Problem :=
  let c : Cursor := { rest := s }
  let c := if c.isAt '\ufeff' then c.step else c
  Layout.run { cursor := c } (s.length + 1)

end SvgComponent.Yaml
