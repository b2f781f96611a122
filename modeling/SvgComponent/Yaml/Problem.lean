import SvgComponent.Text.Quoted

/-!
# Problems in YAML documents

A problem has a cause and a place, and often a context: what was being read, and where that began.
-/

namespace SvgComponent.Yaml

/-- A place in a document; lines and columns are counted from zero. -/
structure Mark where
  line : Nat
  column : Nat
  deriving DecidableEq, Repr

/-- What was being read. -/
inductive Context where
  | simpleKey
  | nextToken
  | directive
  | alias
  | anchor
  | tag
  | tagText
  | blockScalar
  | quotedScalar
  | doubleQuotedScalar
  | node
  | blockNode
  | flowNode
  | blockCollection
  | blockMapping
  | flowSequence
  | flowMapping
  | singleDocument
  | firstAnchor (name : String)
  | construction
  deriving DecidableEq, Repr

/-- A text in quotes. -/
def quote (s : String) : String := String.ofList (Text.quoted s.toList)

/-- The wording of a context. -/
def Context.text : Context → String
  | .simpleKey => "while scanning a simple key"
  | .nextToken => "while scanning for the next token"
  | .directive => "while scanning a directive"
  | .alias => "while scanning an alias"
  | .anchor => "while scanning an anchor"
  | .tag => "while scanning a tag"
  | .tagText => "while parsing a tag"
  | .blockScalar => "while scanning a block scalar"
  | .quotedScalar => "while scanning a quoted scalar"
  | .doubleQuotedScalar => "while scanning a double-quoted scalar"
  | .node => "while parsing a node"
  | .blockNode => "while parsing a block node"
  | .flowNode => "while parsing a flow node"
  | .blockCollection => "while parsing a block collection"
  | .blockMapping => "while parsing a block mapping"
  | .flowSequence => "while parsing a flow sequence"
  | .flowMapping => "while parsing a flow mapping"
  | .singleDocument => "expected a single document in the stream"
  | .firstAnchor name => "found duplicate anchor " ++ quote name ++ "; first occurrence"
  | .construction => "while constructing a mapping"

/-- What is wrong. In a document's text, `none` stands for its end. -/
inductive Cause where
  | missingColon
  | strayCharacter (c : Char)
  | sequenceNotAllowed
  | keyNotAllowed
  | valueNotAllowed
  /-- Something else than what was expected. -/
  | expected (what : String) (found : Option Char)
  | zeroIndentation
  | badEscape (digits : Nat) (found : Option Char)
  | unknownEscape (found : Option Char)
  /-- An escape for a code that no character has. -/
  | noCharacter (code : Nat)
  | endOfStream
  | documentSeparator
  /-- Another token than what was expected. -/
  | expectedToken (what : String) (found : String)
  | expectedInFlow (closing : String) (found : String)
  | duplicateDirective
  | incompatibleVersion
  | undefinedHandle (handle : String)
  | undefinedAlias (name : String)
  | secondAnchor
  | anotherDocument
  | unusableKey
  | unknownTag (tag : String)
  | notMergeable (found : String)
  | notMergeableItem (found : String)
  deriving DecidableEq, Repr

/-- The end of a text or one of its characters, in quotes. -/
def quoteFound (found : Option Char) : String :=
  String.ofList (Text.quoted [found.getD (Char.ofNat 0)])

/-- The greatest code of a character. -/
def maxCode : Nat := 0x10FFFF

/-- Whether a code takes more than 31 bits. -/
def isWideCode (code : Nat) : Bool := Nat.pow 2 31 ≤ code

/-- The wording for a code that no character has. -/
def noCharacterText (code : Nat) : String :=
  if isWideCode code then "Python int too large to convert to C int"
  else "chr() arg not in range(0x110000)"

/-- The wording of a cause. -/
def Cause.text : Cause → String
  | .missingColon => "could not find expected ':'"
  | .strayCharacter c => "found character " ++ quoteFound (some c) ++ " that cannot start any token"
  | .sequenceNotAllowed => "sequence entries are not allowed here"
  | .keyNotAllowed => "mapping keys are not allowed here"
  | .valueNotAllowed => "mapping values are not allowed here"
  | .expected what found => "expected " ++ what ++ ", but found " ++ quoteFound found
  | .zeroIndentation => "expected indentation indicator in the range 1-9, but found 0"
  | .badEscape digits found =>
    "expected escape sequence of " ++ toString digits ++ " hexadecimal numbers, but found " ++
      quoteFound found
  | .unknownEscape found => "found unknown escape character " ++ quoteFound found
  | .noCharacter code => noCharacterText code
  | .endOfStream => "found unexpected end of stream"
  | .documentSeparator => "found unexpected document separator"
  | .expectedToken what found => "expected " ++ what ++ ", but found " ++ quote found
  | .expectedInFlow closing found =>
    "expected ',' or '" ++ closing ++ "', but got " ++ quote found
  | .duplicateDirective => "found duplicate YAML directive"
  | .incompatibleVersion => "found incompatible YAML document (version 1.* is required)"
  | .undefinedHandle handle => "found undefined tag handle " ++ quote handle
  | .undefinedAlias name => "found undefined alias " ++ quote name
  | .secondAnchor => "second occurrence"
  | .anotherDocument => "but found another document"
  | .unusableKey => "found unhashable key"
  | .unknownTag tag => "could not determine a constructor for the tag " ++ quote tag
  | .notMergeable found =>
    "expected a mapping or list of mappings for merging, but found " ++ found
  | .notMergeableItem found => "expected a mapping for merging, but found " ++ found

/-- A problem in a document. -/
structure Problem where
  context : Option Context := none
  contextMark : Option Mark := none
  cause : Cause
  mark : Mark
  deriving DecidableEq, Repr

/-- A problem met while something that began at `start` was being read. -/
def Problem.during (context : Context) (start : Mark) (cause : Cause) (mark : Mark) : Problem :=
  { context := some context, contextMark := some start, cause, mark }

/-- A place in the document of this name. -/
def Mark.text (name : String) (m : Mark) : String :=
  "  in \"" ++ name ++ "\", line " ++ toString (m.line + 1) ++ ", column " ++
    toString (m.column + 1)

/-- The wording of a problem in the document of this name. The place of the context is left out if
it is that of the problem. -/
def Problem.message (name : String) (p : Problem) : String :=
  "\n".intercalate <|
    (p.context.map Context.text).toList ++
      (match p.contextMark with
        | some m => if m = p.mark then [] else [m.text name]
        | none => []) ++
      [p.cause.text, p.mark.text name]

end SvgComponent.Yaml
