import SvgComponent.Yaml.Problem

/-!
# Reading a document

A cursor is the text that is left of a document together with its place in it.
-/

namespace SvgComponent.Yaml

/-- Line breaks. -/
def isBreak (c : Char) : Bool :=
  c == '\n' || c == '\r' || c == '\u0085' || c == '\u2028' || c == '\u2029'

/-- Whether the text ends, or a line does. -/
def atLineEnd (c : Option Char) : Bool := c.all isBreak

/-- Whether the text ends, or a line does, or a blank follows. -/
def atGap (c : Option Char) : Bool := c.all fun c => isBreak c || c == ' ' || c == '\t'

/-- The text that is left, and where it starts. -/
structure Cursor where
  rest : List Char
  /-- The number of characters before it. -/
  index : Nat := 0
  line : Nat := 0
  column : Nat := 0
  deriving DecidableEq, Repr

namespace Cursor

/-- The place of the cursor. -/
def mark (c : Cursor) : Mark := ⟨c.line, c.column⟩

/-- The next character. -/
def peek (c : Cursor) : Option Char := c.rest.head?

/-- The character that has `n` others before it. -/
def peekAt (c : Cursor) (n : Nat) : Option Char := c.rest[n]?

/-- Whether a certain character is next. -/
def isAt (c : Cursor) (ch : Char) : Bool := c.peek == some ch

/-- The cursor behind the next character. A byte order mark has no width. -/
def step (c : Cursor) : Cursor :=
  match c.rest with
  | [] => c
  | ch :: rest =>
    if isBreak ch && !(ch == '\r' && rest.head? == some '\n') then
      ⟨rest, c.index + 1, c.line + 1, 0⟩
    else ⟨rest, c.index + 1, c.line, if ch == '\ufeff' then c.column else c.column + 1⟩

/-- The cursor behind the next `n` characters. -/
def forward : Nat → Cursor → Cursor
  | 0, c => c
  | n + 1, c => forward n c.step

/-- The cursor behind the characters of a class that come next. -/
def skipWhile (p : Char → Bool) (c : Cursor) : Cursor := c.forward (c.rest.takeWhile p).length

/-- The rest of the line, and the cursor at its end. -/
def restOfLine (c : Cursor) : List Char × Cursor :=
  let text := c.rest.takeWhile (!isBreak ·)
  (text, c.forward text.length)

/-- The line break that comes next, written as a line feed unless it separates lines or paragraphs
by itself, and the cursor behind it. -/
def lineBreak (c : Cursor) : List Char × Cursor :=
  match c.rest with
  | '\r' :: '\n' :: _ => (['\n'], c.forward 2)
  | ch :: _ =>
    if ch == '\u2028' || ch == '\u2029' then ([ch], c.step)
    else if isBreak ch then (['\n'], c.step)
    else ([], c)
  | [] => ([], c)

/-- Whether a line that separates documents, of three dashes or dots, comes next. -/
def atSeparator (c : Cursor) : Bool :=
  (c.rest.take 3 == ['-', '-', '-'] || c.rest.take 3 == ['.', '.', '.']) && atGap (c.peekAt 3)

end Cursor

end SvgComponent.Yaml
