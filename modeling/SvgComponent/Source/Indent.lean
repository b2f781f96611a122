import SvgComponent.Text.Blank
import SvgComponent.Text.Line
import SvgComponent.Text.Search

/-!
# Indenting source

Lines are indented anew from what they start and end with: a line that starts with a close tag or a
closing bracket stands one level further out than the lines before it, and a line that leaves a tag
or a bracket open puts the lines behind it one level further in.
-/

namespace SvgComponent.Source

open Text

/-- A line that closes a block: it starts with a close tag, a closing brace or parenthesis. -/
def closesBlock (line : List Char) : Bool :=
  ['<', '/'].isPrefixOf line || ['\x7d'].isPrefixOf line || [')'].isPrefixOf line

/-- A line that opens a block: a start tag that neither closes itself nor is closed on the line, or
any other line that ends with an opening brace or parenthesis. -/
def opensBlock (line : List Char) : Bool :=
  if ['<'].isPrefixOf line && !(['<', '/'].isPrefixOf line) then
    !(['/', '>'].isSuffixOf line) && !(occursIn ['<', '/'] line)
  else
    ['\x7b'].isSuffixOf line || ['('].isSuffixOf line

/-- Lines with their own edges stripped, indented by `unit` once per level. Blank lines are left
empty and leave the level as it is. -/
def indentLines (unit : List Char) (level : Nat) : List (List Char) → List (List Char)
  | [] => []
  | line :: rest =>
    match strip line with
    | [] => [] :: indentLines unit level rest
    | content =>
      let level := if closesBlock content then level - 1 else level
      ((List.replicate level unit).flatten ++ content) ::
        indentLines unit (if opensBlock content then level + 1 else level) rest

/-- Source indented anew with `unit` for each level. -/
def indentWith (unit source : List Char) : List Char :=
  joinLines (indentLines unit 0 (lines (unifyBreaks source)))

/-! ## Styles -/

/-- How a level of indentation is written. -/
inductive IndentStyle where
  | tab
  /-- As many spaces; none if the number is negative. -/
  | spaces (width : Int)
  deriving DecidableEq, Repr

/-- Why source cannot be indented in a style. -/
inductive IndentError where
  /-- The width is beyond all lengths of texts. -/
  | widthOutOfRange
  deriving DecidableEq, Repr

/-- The wording of an indentation error. -/
def IndentError.message : IndentError → String
  | .widthOutOfRange => "cannot fit 'int' into an index-sized integer"

/-- The text of one level. -/
def IndentStyle.unit : IndentStyle → Except IndentError (List Char)
  | .tab => .ok ['\t']
  | .spaces width =>
    if width < -Int.pow 2 63 ∨ Int.pow 2 63 ≤ width then .error .widthOutOfRange
    else .ok (List.replicate width.toNat ' ')

/-- Source indented anew in a style. -/
def indent (style : IndentStyle) (source : List Char) : Except IndentError (List Char) :=
  style.unit.map (indentWith · source)

end SvgComponent.Source
