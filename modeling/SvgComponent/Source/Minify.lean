import SvgComponent.Text.Blank

/-!
# Minifying source

Source is cut into string literals, whose content is kept, and the code between them, from which
blanks are removed in six passes. A pass goes through the code from its end to its start, so that at
each character it sees what the code behind has become.

* `segments`: code and literals, in order.
* `minifyCode`: the passes.
* `minify`: the whole source on one line.
-/

namespace SvgComponent.Source

open Text

/-! ## Literals -/

/-- A piece of source. -/
inductive Segment where
  | code (content : List Char)
  /-- A string literal, with its quotes. -/
  | literal (content : List Char)
  deriving DecidableEq, Repr

/-- Quotation marks of string literals. -/
def isStringQuote (c : Char) : Bool := c == '"' || c == '\''

/-- The segments of source that `code`, in reverse order, is the start of. A quotation mark starts
a literal if the same mark stands behind it, and is code otherwise. -/
def segmentsFrom (code : List Char) : List Char → List Segment
  | [] => [.code code.reverse]
  | c :: s =>
    if isStringQuote c && s.contains c then
      let content := s.takeWhile (· ≠ c)
      .code code.reverse :: .literal (c :: content ++ [c]) ::
        segmentsFrom [] (s.drop (content.length + 1))
    else segmentsFrom (c :: code) s
termination_by s => s.length
decreasing_by all_goals simp; try omega

/-- Code and literals of source, in order. -/
def segments (source : List Char) : List Segment := segmentsFrom [] source

/-! ## Passes over code -/

/-- Spaces and tabs, the blanks that stay on a line. -/
def isInline (c : Char) : Bool := c == ' ' || c == '\t'

/-- Whether a text starts with inline blanks and a line feed, perhaps behind a carriage return. -/
def startsWithBreak (s : List Char) : Bool :=
  match s.dropWhile isInline with
  | '\n' :: _ => true
  | '\r' :: '\n' :: _ => true
  | _ => false

/-- Drops the blanks behind a `>` that ends its line. -/
def joinAfterTag (code : List Char) : List Char :=
  code.foldr (fun c rest =>
    if c = '>' ∧ startsWithBreak rest then c :: rest.dropWhile isBlank else c :: rest) []

/-- Puts `c` in front of code; `joined` says that the code starts with a `<` before which a line
break, and so all blanks, are to be dropped. -/
def joinBeforeTag.push (c : Char) : Bool × List Char → Bool × List Char
  | (joined, rest) =>
    if isBlank c && joined then (true, rest)
    else if c = '\n' ∧ (rest.dropWhile isInline).head? = some '<' then
      (true, rest.dropWhile isInline)
    else (false, c :: rest)

/-- Drops the blanks before a `<` that starts its line. -/
def joinBeforeTag (code : List Char) : List Char :=
  (code.foldr joinBeforeTag.push (false, [])).2

/-- Drops the blanks between `>` and `<`. -/
def joinTags (code : List Char) : List Char :=
  code.foldr (fun c rest =>
    if c = '>' ∧ (rest.dropWhile isBlank).head? = some '<' then c :: rest.dropWhile isBlank
    else c :: rest) []

/-- Puts `c` in front of code; `used` says that the closing brace the code starts with, perhaps
behind blanks, has had a semicolon dropped before it. -/
def dropSemicolons.push (c : Char) : Bool × List Char → Bool × List Char
  | (used, rest) =>
    if isBlank c then (used, c :: rest)
    else if c = ';' ∧ !used ∧ (rest.dropWhile isBlank).head? = some '\x7d' then
      (true, rest.dropWhile isBlank)
    else (false, c :: rest)

/-- Drops a semicolon before a closing brace, with the blanks between them. -/
def dropSemicolons (code : List Char) : List Char :=
  (code.foldr dropSemicolons.push (false, [])).2

/-- Punctuation that needs no blanks around it. -/
def isPunctuation (c : Char) : Bool :=
  c == '\x7b' || c == '\x7d' || c == '=' || c == ',' || c == ';'

/-- Drops the blanks around punctuation. -/
def tightenPunctuation (code : List Char) : List Char :=
  code.foldr (fun c rest =>
    if isPunctuation c then c :: rest.dropWhile isBlank
    else if isBlank c && rest.head?.any isPunctuation then rest
    else c :: rest) []

/-- Code without the blanks it does not need. A blank that holds a line break is dropped next to a
tag, where JSX would drop it too; every other run of blanks becomes one space first. -/
def minifyCode (code : List Char) : List Char :=
  tightenPunctuation (dropSemicolons (joinTags (collapse (joinBeforeTag (joinAfterTag code)))))

/-- A segment minified. In a literal only runs of blanks are replaced. -/
def Segment.minify : Segment → List Char
  | .code content => minifyCode content
  | .literal content => collapse content

/-- Source on one line. -/
def minify (source : List Char) : List Char := strip ((segments source).flatMap Segment.minify)

end SvgComponent.Source
