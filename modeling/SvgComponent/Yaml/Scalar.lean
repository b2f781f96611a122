import SvgComponent.Text.Digit
import SvgComponent.Yaml.Cursor

/-!
# Scalars

The text of a scalar in each of its styles.

* `plain`: without any marks around it.
* `quoted`: in single or double quotes.
* `block`: on lines of its own, literal or folded.

The line breaks inside a plain or quoted scalar are folded: one becomes a space, and of several all
but the first stay.
-/

namespace SvgComponent.Yaml

/-- A folded line break, and the empty lines behind it. -/
def foldBreaks (first more : List Char) : List Char :=
  if first != ['\n'] then first ++ more else if more.isEmpty then [' '] else more

/-! ## Plain scalars -/

/-- Characters that end a plain scalar inside a flow collection. -/
def isFlowIndicator (c : Char) : Bool :=
  c == ',' || c == '[' || c == ']' || c == '\x7b' || c == '\x7d'

/-- Whether a plain scalar ends before `c`, with `next` behind it. -/
def endsPlain (inFlow : Bool) (c : Char) (next : Option Char) : Bool :=
  atGap (some c) ||
    (c == ':' && (atGap next || (inFlow && next.any isFlowIndicator))) ||
    (inFlow && (isFlowIndicator c || c == '?'))

/-- The part of a plain scalar that a text starts with, up to the next blank. -/
def plainPart (inFlow : Bool) : List Char → List Char
  | [] => []
  | c :: s => if endsPlain inFlow c s.head? then [] else c :: plainPart inFlow s

/-- The line breaks behind a line break, blanks skipped; `none` at a line that separates
documents. -/
def plainBreaks (c : Cursor) : Nat → Option (List Char) × Cursor
  | 0 => (some [], c)
  | fuel + 1 =>
    if c.isAt ' ' then plainBreaks c.step fuel
    else match c.lineBreak with
      | ([], _) => (some [], c)
      | (b, c) =>
        if c.atSeparator then (none, c)
        else
          let (bs, c) := plainBreaks c fuel
          (bs.map (b ++ ·), c)

/-- The blanks behind a part of a plain scalar, as they count inside it; whether they hold a line
break; and the cursor behind them. -/
def plainBlanks (c : Cursor) : List Char × Bool × Cursor :=
  let blanks := c.rest.takeWhile (· == ' ')
  let c := c.forward blanks.length
  match c.lineBreak with
  | ([], _) => (blanks, false, c)
  | (first, c) =>
    if c.atSeparator then ([], true, c)
    else match plainBreaks c c.rest.length with
      | (none, c) => ([], true, c)
      | (some more, c) => (foldBreaks first more, true, c)

/-- A plain scalar, `blanks` being what stands between the parts before and the next one, and
`broken` whether that holds a line break. A part on a later line has to stand at least at the column
`indent`, unless it is inside a flow collection. -/
def plainFrom (inFlow : Bool) (indent : Int) (blanks : List Char) (broken : Bool) (c : Cursor) :
    Nat → List Char × Bool × Cursor
  | 0 => ([], broken, c)
  | fuel + 1 =>
    if c.isAt '#' then ([], broken, c)
    else match plainPart inFlow c.rest with
      | [] => ([], broken, c)
      | part =>
        match plainBlanks (c.forward part.length) with
        | ([], broken, c) => (blanks ++ part, broken, c)
        | (more, broken, c) =>
          if c.isAt '#' || (!inFlow && c.column < indent) then (blanks ++ part, broken, c)
          else
            let (text, broken, c) := plainFrom inFlow indent more broken c fuel
            (blanks ++ part ++ text, broken, c)

/-- A plain scalar, whether it ends on a new line, and the cursor behind it. -/
def plain (inFlow : Bool) (indent : Int) (c : Cursor) : List Char × Bool × Cursor :=
  plainFrom inFlow indent [] false c (c.rest.length + 1)

/-! ## Quoted scalars -/

/-- The line breaks behind a line break, blanks skipped. -/
def quotedBreaks (start : Mark) (c : Cursor) : Nat → Except Problem (List Char × Cursor)
  | 0 => .ok ([], c)
  | fuel + 1 =>
    if c.atSeparator then .error (.during .quotedScalar start .documentSeparator c.mark)
    else
      let c := c.skipWhile fun ch => ch == ' ' || ch == '\t'
      match c.lineBreak with
      | ([], _) => .ok ([], c)
      | (b, c) => do
        let (bs, c) ← quotedBreaks start c fuel
        return (b ++ bs, c)

/-- The characters that an escape of one character stands for. -/
def shortEscapes : List (Char × Nat) :=
  [('0', 0x00), ('a', 0x07), ('b', 0x08), ('t', 0x09), ('\t', 0x09), ('n', 0x0A), ('v', 0x0B),
   ('f', 0x0C), ('r', 0x0D), ('e', 0x1B), (' ', 0x20), ('"', 0x22), ('\\', 0x5C), ('/', 0x2F),
   ('N', 0x85), ('_', 0xA0), ('L', 0x2028), ('P', 0x2029)]

/-- The number of hexadecimal digits behind an escape. -/
def escapeDigits : List (Char × Nat) := [('x', 2), ('u', 4), ('U', 8)]

/-- The code in the hexadecimal digits of an escape, and the cursor behind them. -/
def escapedCode (start : Mark) (count : Nat) (c : Cursor) : Except Problem (Nat × Cursor) :=
  let refused (cause : Cause) : Except Problem (Nat × Cursor) :=
    .error (.during .doubleQuotedScalar start cause c.mark)
  let digits := c.rest.take count
  match digits.find? fun d => (Text.hexValue? d).isNone with
  | some d => refused (.badEscape count (some d))
  | none =>
    let code := digits.foldl (fun n d => n * 16 + (Text.hexValue? d).getD 0) 0
    if digits.length < count then refused (.badEscape count none)
    else if maxCode < code then refused (.noCharacter code)
    else .ok (code, c.forward count)

/-- Whether a code is the upper half of a surrogate pair. -/
def isUpperHalf (code : Nat) : Bool := 0xD800 ≤ code && code < 0xDC00

/-- Whether a code is the lower half of a surrogate pair. -/
def isLowerHalf (code : Nat) : Bool := 0xDC00 ≤ code && code < 0xE000

/-- The lower half of a surrogate pair, if an escape for one comes next, and the cursor behind
it. -/
def lowerHalf? (start : Mark) (c : Cursor) : Option (Nat × Cursor) :=
  match c.rest with
  | '\\' :: ch :: _ =>
    match escapeDigits.lookup ch with
    | none => none
    | some count =>
      match escapedCode start count (c.forward 2) with
      | .ok (code, c) => if isLowerHalf code then some (code, c) else none
      | .error _ => none
  | _ => none

/-- The character that has a code, and the cursor behind it: the two halves of a surrogate pair are
one character, and a half alone is replaced. -/
def escapedChar (start : Mark) (code : Nat) (c : Cursor) : Char × Cursor :=
  if isUpperHalf code then
    match lowerHalf? start c with
    | some (low, c) => (Char.ofNat (0x10000 + (code - 0xD800) * 0x400 + (low - 0xDC00)), c)
    | none => ('\ufffd', c)
  else if isLowerHalf code then ('\ufffd', c)
  else (Char.ofNat code, c)

/-- What an escape stands for, the cursor being behind its backslash. -/
def escape (start : Mark) (c : Cursor) : Except Problem (List Char × Cursor) :=
  match c.peek with
  | none => .error (.during .doubleQuotedScalar start (.unknownEscape none) c.mark)
  | some ch =>
    match shortEscapes.lookup ch, escapeDigits.lookup ch with
    | some n, _ => .ok ([Char.ofNat n], c.step)
    | none, some count => do
      let (code, c) ← escapedCode start count c.step
      let (ch, c) := escapedChar start code c
      return ([ch], c)
    | none, none =>
      if isBreak ch then
        let c := c.lineBreak.2
        quotedBreaks start c (c.rest.length + 1)
      else .error (.during .doubleQuotedScalar start (.unknownEscape (some ch)) c.mark)

/-- The blanks inside a quoted scalar as they count. -/
def quotedBlanks (start : Mark) (c : Cursor) : Except Problem (List Char × Cursor) :=
  let blanks := c.rest.takeWhile fun ch => ch == ' ' || ch == '\t'
  let c := c.forward blanks.length
  match c.lineBreak with
  | ([], _) =>
    if c.peek.isNone then .error (.during .quotedScalar start .endOfStream c.mark)
    else .ok (blanks, c)
  | (first, c) => do
    let (more, c) ← quotedBreaks start c (c.rest.length + 1)
    return (foldBreaks first more, c)

/-- A quoted scalar from inside it up to its closing quote, and the cursor behind that. -/
def quotedFrom (double : Bool) (start : Mark) (c : Cursor) :
    Nat → Except Problem (List Char × Cursor)
  | 0 => .error (.during .quotedScalar start .endOfStream c.mark)
  | fuel + 1 => do
    let more (text : List Char) (c : Cursor) : Except Problem (List Char × Cursor) := do
      let (rest, c) ← quotedFrom double start c fuel
      return (text ++ rest, c)
    match c.peek with
    | none => .error (.during .quotedScalar start .endOfStream c.mark)
    | some ch =>
      if atGap (some ch) then
        let (blanks, c) ← quotedBlanks start c
        more blanks c
      else if ch == '\'' && !double then
        if c.peekAt 1 == some '\'' then more ['\''] (c.forward 2) else return ([], c.step)
      else if ch == '"' && double then return ([], c.step)
      else if ch == '\\' && double then
        let (text, c) ← escape start c.step
        more text c
      else more [ch] c.step

/-- A scalar in quotes, the cursor being at the opening one. -/
def quoted (c : Cursor) : Except Problem (List Char × Cursor) :=
  quotedFrom (c.isAt '"') c.mark c.step (c.rest.length + 1)

/-! ## Block scalars -/

/-- The line breaks at the end of a block scalar: one, none, or all. -/
inductive Chomping where
  | clip
  | strip
  | keep
  deriving DecidableEq, Repr

/-- What the indicators of a block scalar say. -/
structure BlockHeader where
  chomping : Chomping := .clip
  /-- The indentation, if it is given. -/
  increment : Option Nat := none
  deriving DecidableEq, Repr

/-- How line breaks at the end are indicated. -/
def chomping? : Option Char → Option Chomping
  | some '+' => some .keep
  | some '-' => some .strip
  | _ => none

/-- The indentation that is indicated, and the cursor behind it. -/
def increment (start : Mark) (c : Cursor) : Except Problem (Option Nat × Cursor) :=
  match c.peek with
  | some ch =>
    if '0' ≤ ch && ch ≤ '9' then
      if ch == '0' then .error (.during .blockScalar start .zeroIndentation c.mark)
      else .ok (some (ch.toNat - '0'.toNat), c.step)
    else .ok (none, c)
  | none => .ok (none, c)

/-- The indicators of a block scalar, in either order. -/
def blockHeader (start : Mark) (c : Cursor) : Except Problem (BlockHeader × Cursor) := do
  let (header, c) ← match chomping? c.peek with
    | some chomping => do
      let (increment, c) ← increment start c.step
      pure (BlockHeader.mk chomping increment, c)
    | none => do
      let (increment, c) ← increment start c
      match increment, chomping? c.peek with
      | some n, some chomping => pure (BlockHeader.mk chomping (some n), c.step)
      | n, _ => pure (BlockHeader.mk .clip n, c)
  if atLineEnd c.peek || c.isAt ' ' then return (header, c)
  else
    let cause := .expected "chomping or indentation indicators" c.peek
    throw (.during .blockScalar start cause c.mark)

/-- The cursor behind the line of the indicators, which may hold a comment. -/
def blockHeaderEnd (start : Mark) (c : Cursor) : Except Problem Cursor :=
  let c := c.skipWhile (· == ' ')
  let c := if c.isAt '#' then c.restOfLine.2 else c
  if atLineEnd c.peek then .ok c.lineBreak.2
  else
    let cause := .expected "a comment or a line break" c.peek
    .error (.during .blockScalar start cause c.mark)

/-- The line breaks in front of the first line that has content, the greatest column reached on the
way, and the cursor behind them. -/
def blockMargin (widest : Nat) (c : Cursor) : Nat → List Char × Nat × Cursor
  | 0 => ([], widest, c)
  | fuel + 1 =>
    if c.isAt ' ' then
      let c := c.step
      blockMargin (max widest c.column) c fuel
    else match c.lineBreak with
      | ([], _) => ([], widest, c)
      | (b, c) =>
        let (bs, widest, c) := blockMargin widest c fuel
        (b ++ bs, widest, c)

/-- The cursor behind spaces, at most up to a column. -/
def skipIndent (indent : Nat) (c : Cursor) : Cursor :=
  c.forward (min (indent - c.column) (c.rest.takeWhile (· == ' ')).length)

/-- The line breaks of empty lines, and the cursor at the indentation of the line behind them. -/
def blockBreaks (indent : Nat) (c : Cursor) : Nat → List Char × Cursor
  | 0 => ([], c)
  | fuel + 1 =>
    let c := skipIndent indent c
    match c.lineBreak with
    | ([], _) => ([], c)
    | (b, c) =>
      let (bs, c) := blockBreaks indent c fuel
      (b ++ bs, c)

/-- The lines of a block scalar. -/
structure BlockLines where
  content : List Char
  /-- The line break behind the last line. -/
  final : List Char
  /-- The line breaks of the empty lines behind it. -/
  trailing : List Char
  cursor : Cursor
  deriving DecidableEq, Repr

/-- Whether the cursor is at a line of a block scalar. -/
def atBlockLine (indent : Nat) (c : Cursor) : Bool := c.column == indent && c.peek.isSome

/-- Whether the cursor is at a space or a tab. -/
def atBlank (c : Cursor) : Bool := c.isAt ' ' || c.isAt '\t'

/-- The lines of a block scalar, `breaks` being those of the empty lines before. A folded scalar
joins two lines by a space unless one of them starts with a blank. -/
def blockLines (folded : Bool) (indent : Nat) (breaks : List Char) (c : Cursor) : Nat → BlockLines
  | 0 => ⟨[], [], breaks, c⟩
  | fuel + 1 =>
    if atBlockLine indent c then
      let starts := !atBlank c
      let (text, c) := c.restOfLine
      let (final, c) := c.lineBreak
      let (empty, c) := blockBreaks indent c (c.rest.length + 1)
      if atBlockLine indent c then
        let joint :=
          if folded && final == ['\n'] && starts && !atBlank c then
            (if empty.isEmpty then [' '] else [])
          else final
        let rest := blockLines folded indent empty c fuel
        { rest with content := breaks ++ text ++ joint ++ rest.content }
      else ⟨breaks ++ text, final, empty, c⟩
    else ⟨[], [], breaks, c⟩

/-- A block scalar, the cursor being at its indicator, inside a block of this indentation. -/
def block (folded : Bool) (indent : Int) (c : Cursor) : Except Problem (List Char × Cursor) := do
  let start := c.mark
  let (header, c) ← blockHeader start c.step
  let c ← blockHeaderEnd start c
  let least := max 1 (indent + 1).toNat
  let fuel := c.rest.length + 1
  let (breaks, indent, c) := match header.increment with
    | none =>
      let (breaks, widest, c) := blockMargin 0 c fuel
      (breaks, max least widest, c)
    | some n =>
      let indent := least + n - 1
      let (breaks, c) := blockBreaks indent c fuel
      (breaks, indent, c)
  let ls := blockLines folded indent breaks c fuel
  let ending := match header.chomping with
    | .clip => ls.final
    | .strip => []
    | .keep => ls.final ++ ls.trailing
  return (ls.content ++ ending, ls.cursor)

end SvgComponent.Yaml
