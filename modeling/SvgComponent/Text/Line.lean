/-!
# Lines

A line break is a line feed, a carriage return, or the two together; `unifyBreaks` writes each as
one line feed, after which `lines` and `joinLines` go back and forth between a text and its lines.
-/

namespace SvgComponent.Text

/-- Puts `c` in front of a text with line feeds as its only breaks: a carriage return is a break of
its own unless the text starts with the line feed that completes it. `fed` says that the text starts
with a line feed that stood in the input. -/
def unifyBreaks.push (c : Char) : Bool × List Char → Bool × List Char
  | (fed, rest) =>
    if c = '\r' then (false, if fed then rest else '\n' :: rest) else (c == '\n', c :: rest)

/-- Every line break written as one line feed. -/
def unifyBreaks (s : List Char) : List Char := (s.foldr unifyBreaks.push (false, [])).2

/-- The pieces between line feeds, one more than there are line feeds. -/
def lines (s : List Char) : List (List Char) :=
  s.foldr (fun c ls =>
    if c = '\n' then [] :: ls
    else match ls with
      | l :: ls => (c :: l) :: ls
      | [] => [[c]]) [[]]

/-- Lines put together with a line feed between neighbours. -/
def joinLines (ls : List (List Char)) : List Char := ['\n'].intercalate ls

end SvgComponent.Text
