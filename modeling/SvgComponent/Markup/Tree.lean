import SvgComponent.Markup.Node
import SvgComponent.Markup.Token
import SvgComponent.Markup.Vocabulary

/-!
# Building a tree from tokens

The tree is rooted at the first `svg` element. All before its start tag and behind its close tag is
dropped. Inside it, an element that is never closed ends where an enclosing element is closed, void
elements need no closing, and close tags that match no open element are ignored.

* `Builder`, `Builder.feed`: the open elements, and the effect of one lexeme on them.
* `parse`: the tree of a text.
-/

namespace SvgComponent.Markup

/-- Why a text has no tree. -/
inductive ParseError where
  /-- No start tag of an `svg` element is complete. -/
  | noRoot
  /-- The text ends inside the `svg` element. -/
  | unclosedRoot
  deriving DecidableEq, Repr

/-- The wording of a parse error. -/
def ParseError.message : ParseError → String
  | .noRoot => "No <svg> root element found"
  | .unclosedRoot => "The <svg> root element is never closed"

/-- A tree under construction. -/
structure Builder where
  /-- The open elements, innermost first, each with the children that are finished. The outermost is
  the root. -/
  opened : List Element := []
  /-- The start tag being read. -/
  pending : Option Element := none
  deriving Repr

/-- The state after a lexeme: still building, or the finished root. -/
inductive Progress where
  | more (builder : Builder)
  | done (root : Element)
  deriving Repr

/-- The tag of the root. -/
def rootTag : List Char := "svg".toList

/-- The open elements with one more child in the innermost; with none open the child is dropped. -/
def addChild (child : Node) : List Element → List Element
  | [] => []
  | e :: es => e.append child :: es

/-- Closes elements from `e` outwards through its open `parents`, up to the first whose tag is
`name`: that element, finished, and its own parents. Without such an element there is none. -/
def closeThrough (name : List Char) (e : Element) (parents : List Element) :
    Option (Element × List Element) :=
  if e.tag = name then some (e, parents)
  else match parents with
    | [] => none
    | p :: ps => closeThrough name (p.append e.node) ps

/-- A complete start tag. `leavesOpen` says that children follow. With no open element, only the
root's start tag counts. -/
def Builder.start (b : Builder) (e : Element) (leavesOpen : Bool) : Progress :=
  match b.opened with
  | [] =>
    if e.tag = rootTag then
      if leavesOpen then .more { opened := [e] } else .done e
    else .more { opened := [] }
  | es =>
    if leavesOpen then .more { opened := e :: es }
    else .more { opened := addChild e.node es }

/-- A close tag. -/
def Builder.close (b : Builder) (name : List Char) : Progress :=
  match b.opened with
  | [] => .more b
  | e :: parents =>
    match closeThrough name e parents with
    | none => .more b
    | some (root, []) => .done root
    | some (closed, rest) => .more { b with opened := addChild closed.node rest }

/-- The effect of one lexeme. -/
def Builder.feed (b : Builder) : Lexeme → Progress
  | .openTag name => .more { b with pending := some { tag := name } }
  | .attribute name value =>
    .more { b with pending := b.pending.map fun e =>
      { e with attributes := addAttribute e.attributes ⟨name, value⟩ } }
  | .tagEnd =>
    match b.pending with
    | none => .more b
    | some e => b.start e (!isVoid e.tag)
  | .selfClose =>
    match b.pending with
    | none => .more b
    | some e => b.start e false
  | .closeTag name => b.close name
  | .text content => .more { b with opened := addChild (.text content) b.opened }
  | .cdata content => .more { b with opened := addChild (.text content) b.opened }
  | .comment body => .more { b with opened := addChild (.comment body) b.opened }

/-- Feeds lexemes until the root is finished. -/
def Builder.run (b : Builder) : List Lexeme → Except ParseError Element
  | [] => .error (if b.opened.isEmpty then .noRoot else .unclosedRoot)
  | l :: ls =>
    match b.feed l with
    | .more b => b.run ls
    | .done root => .ok root

/-- The tree of a sequence of lexemes. -/
def build (lexemes : List Lexeme) : Except ParseError Element := Builder.run {} lexemes

/-- The tree of a text. -/
def parse (s : List Char) : Except ParseError Element := build ((tokenize s).map Token.lexeme)

end SvgComponent.Markup
