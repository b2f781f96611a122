import SvgComponent.Text.Blank

/-!
# Text in JSX

How attribute values, comments and character data are written so that they read as themselves.

* `quoteAttribute`: a value between quotes.
* `formatComment`: a comment as an expression container.
* `escapeText`: character data, with each character that JSX would interpret in a container of its
  own.
* `mixedText`: character data between other nodes, with the blanks that JSX would drop made
  explicit.
-/

namespace SvgComponent.Jsx

open Text

/-- The two quotation marks. -/
inductive Quote where
  | double
  | single
  deriving DecidableEq, Repr

/-- The mark itself. -/
def Quote.char : Quote → Char
  | .double => '"'
  | .single => '\''

/-- The other mark. -/
def Quote.other : Quote → Quote
  | .double => .single
  | .single => .double

/-- The entity that stands for the mark. -/
def Quote.entity : Quote → List Char
  | .double => "&quot;".toList
  | .single => "&#39;".toList

/-- A value between two marks. -/
def Quote.enclose (q : Quote) (value : List Char) : List Char := q.char :: value ++ [q.char]

/-- An attribute value in quotes: the preferred ones unless they occur in the value and the other
ones do not. If both occur, the preferred mark inside is written as its entity. -/
def quoteAttribute (preferred : Quote) (value : List Char) : List Char :=
  if preferred.char ∉ value then preferred.enclose value
  else if preferred.other.char ∉ value then preferred.other.enclose value
  else preferred.enclose
    (value.flatMap fun c => if c = preferred.char then preferred.entity else [c])

/-- A comment body in which no `*/` is left: each is written `*\/`. -/
def guardClose : List Char → List Char
  | [] => []
  | c :: s =>
    if c = '*' ∧ s.head? = some '/' then '*' :: '\\' :: guardClose s else c :: guardClose s

/-- A comment as an expression container. -/
def formatComment (body : List Char) : List Char :=
  match guardClose (strip body) with
  | [] => "\x7b/* */\x7d".toList
  | body => "\x7b/* ".toList ++ body ++ " */\x7d".toList

/-- The characters that JSX interprets in character data. -/
def isSpecial (c : Char) : Bool := c == '\x7b' || c == '\x7d' || c == '<' || c == '>'

/-- A container holding a string of one character. -/
def container (c : Char) : List Char := ['\x7b', '"', c, '"', '\x7d']

/-- Character data with each special character in a container. -/
def containSpecial (s : List Char) : List Char :=
  s.flatMap fun c => if isSpecial c then container c else [c]

/-- The words of character data, one space apart, with each special character in a container. -/
def escapeText (s : List Char) : List Char := containSpecial (spaced s)

/-- Character data among other nodes, `first` and `last` saying that no sibling stands before or
behind it. Blanks that separate it from a sibling are kept as a container; blanks alone only
between two siblings on one line. -/
def mixedText (first last : Bool) (s : List Char) : List Char :=
  if isBlankText s then
    if !first && !last && !s.contains '\n' then container ' ' else []
  else
    (if !first && s.head?.any isBlank then container ' ' else []) ++ escapeText s ++
      (if !last && s.getLast?.any isBlank then container ' ' else [])

end SvgComponent.Jsx
