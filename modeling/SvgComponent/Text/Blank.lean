/-!
# Blank characters

Which characters separate words, and the operations on text that depend on it.

* `isBlank`: the class of blank characters.
* `stripStart`, `stripEnd`, `strip`: a text without the blanks at its edges.
* `runs`, `words`: the maximal runs of characters of a class, and of those that are not blank.
* `collapse`: every maximal run of blanks replaced by one space.
-/

namespace SvgComponent.Text

/-- The blank characters: the ASCII format effectors and separators, the space, and the space and
line separators beyond ASCII. Zero-width characters are not blank. -/
def isBlank (c : Char) : Bool :=
  let n := c.toNat
  (9 ≤ n && n ≤ 13) || (28 ≤ n && n ≤ 32) || n == 0x85 || n == 0xA0 || n == 0x1680 ||
    (0x2000 ≤ n && n ≤ 0x200A) || n == 0x2028 || n == 0x2029 || n == 0x202F || n == 0x205F ||
    n == 0x3000

/-- A text in which every character is blank, the empty one included. -/
def isBlankText (s : List Char) : Bool := s.all isBlank

/-! ## Edges -/

/-- The text without the blanks it starts with. -/
def stripStart (s : List Char) : List Char := s.dropWhile isBlank

/-- The text without the blanks it ends with. -/
def stripEnd (s : List Char) : List Char :=
  s.foldr (fun c rest => if rest.isEmpty && isBlank c then [] else c :: rest) []

/-- The text without the blanks at either edge. -/
def strip (s : List Char) : List Char := stripEnd (stripStart s)

@[simp] theorem stripEnd_nil : stripEnd [] = [] := rfl

theorem stripEnd_cons (c : Char) (s : List Char) :
    stripEnd (c :: s) =
      if (stripEnd s).isEmpty && isBlank c then [] else c :: stripEnd s := rfl

/-! ## Words -/

/-- Puts `c` in front of a text whose runs are given; `joined` says that the text starts with a
character of the class, so that `c` extends its first run. -/
def runs.push (p : Char → Bool) (c : Char) : Bool × List (List Char) → Bool × List (List Char)
  | (joined, rs) =>
    if p c then
      match joined, rs with
      | true, r :: rs => (true, (c :: r) :: rs)
      | _, rs => (true, [c] :: rs)
    else (false, rs)

/-- The maximal runs of characters of a class, in order. -/
def runs (p : Char → Bool) (s : List Char) : List (List Char) :=
  (s.foldr (runs.push p) (false, [])).2

/-- The maximal runs of characters that are not blank, in order. -/
def words (s : List Char) : List (List Char) := runs (fun c => !isBlank c) s

/-- The words of a text with one space between neighbours. -/
def spaced (s : List Char) : List Char := [' '].intercalate (words s)

/-! ## Runs of blanks -/

/-- Every maximal run of blanks replaced by one space. -/
def collapse (s : List Char) : List Char :=
  s.foldr (fun c rest =>
    if isBlank c then (if rest.head? = some ' ' then rest else ' ' :: rest) else c :: rest) []

end SvgComponent.Text
