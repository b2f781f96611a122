import SvgComponent.Jsx.Text
import SvgComponent.Markup.Node

/-!
# JSX lines of a tree

Elements without content close themselves, elements that hold nothing but text stand on one line,
and all others open and close on lines of their own around the lines of their children.

The tree is walked with an explicit list of pending work, so that its depth is not limited by the
depth of calls.
-/

namespace SvgComponent.Jsx

open Text Markup

/-- One level of indentation. -/
def indentUnit : List Char := [' ', ' ']

/-- The indentation of a level; levels below zero have none. -/
def indentation (level : Int) : List Char := (List.replicate level.toNat indentUnit).flatten

/-- An attribute as it is written. -/
def formatAttribute (quote : Quote) (a : Attribute) : List Char :=
  a.name ++ '=' :: quoteAttribute quote a.value

/-- A start tag up to its end, which is `>` or ` />`. The `extra` parts follow the attributes. -/
def startTag (quote : Quote) (e : Element) (extra : List (List Char)) : List Char :=
  '<' :: e.tag ++ (e.attributes.map (formatAttribute quote) ++ extra).flatMap (' ' :: ·)

/-- A close tag. -/
def endTag (tag : List Char) : List Char := '<' :: '/' :: tag ++ ['>']

/-- Text that is blank. -/
def isBlankNode : Node → Bool
  | .text s => isBlankText s
  | _ => false

/-- Text, blank or not. -/
def isTextNode : Node → Bool
  | .text _ => true
  | _ => false

/-- The content of a text node; other nodes have none. -/
def textContent : Node → List Char
  | .text s => s
  | _ => []

/-- What is left to write: an element with its level and extra attributes, or a finished line. -/
inductive Work where
  | element (e : Element) (level : Int) (extra : List (List Char))
  | line (content : List Char)
  deriving Repr

/-- The work for the children of an element at `level`; `first` says that no child stands before
them. Text that has nothing to show makes no line. -/
def Work.children (level : Int) (first : Bool) : List Node → List Work
  | [] => []
  | n :: ns =>
    let later := Work.children level false ns
    match n with
    | .element tag attributes children =>
      .element ⟨tag, attributes, children⟩ (level + 1) [] :: later
    | .comment body => .line (indentation level ++ indentUnit ++ formatComment body) :: later
    | .text s =>
      match mixedText first ns.isEmpty s with
      | [] => later
      | content => .line (indentation level ++ indentUnit ++ content) :: later

/-! ## The amount of work -/

mutual

/-- The number of lines a node can need at most. -/
def weight : Node → Nat
  | .element _ _ children => 2 + weightOf children
  | .text _ => 1
  | .comment _ => 1

/-- The number of lines that nodes can need at most. -/
def weightOf : List Node → Nat
  | [] => 0
  | n :: ns => weight n + weightOf ns

end

/-- The number of lines that work can need at most. -/
def Work.weight : List Work → Nat
  | [] => 0
  | .element e _ _ :: rest => 2 + weightOf e.children + Work.weight rest
  | .line _ :: rest => 1 + Work.weight rest

theorem Work.weight_append (xs ys : List Work) :
    Work.weight (xs ++ ys) = Work.weight xs + Work.weight ys := by
  induction xs with
  | nil => simp [Work.weight]
  | cons x xs ih => cases x <;> simp [Work.weight, ih] <;> omega

theorem Work.weight_children_le (level : Int) (first : Bool) (ns : List Node) :
    Work.weight (Work.children level first ns) ≤ weightOf ns := by
  induction ns generalizing first with
  | nil => simp [Work.children, Work.weight]
  | cons n ns ih =>
    have := ih false
    cases n with
    | element tag attributes children =>
      simp [Work.children, Work.weight, weightOf, Jsx.weight, this]
    | comment body => simp [Work.children, Work.weight, weightOf, Jsx.weight, this]
    | text s =>
      simp only [Work.children, weightOf, Jsx.weight]
      split <;> simp [Work.weight] <;> omega

/-! ## Lines -/

/-- The lines of pending work, in order. -/
def Work.lines (quote : Quote) : List Work → List (List Char)
  | [] => []
  | .line content :: rest => content :: Work.lines quote rest
  | .element e level extra :: rest =>
    let opening := indentation level ++ startTag quote e extra
    if e.children.all isBlankNode then
      (opening ++ " />".toList) :: Work.lines quote rest
    else if e.children.all isTextNode then
      (opening ++ '>' :: escapeText (e.children.flatMap textContent) ++ endTag e.tag) ::
        Work.lines quote rest
    else
      (opening ++ ['>']) :: Work.lines quote
        (Work.children level true e.children ++
          .line (indentation level ++ endTag e.tag) :: rest)
termination_by work => Work.weight work
decreasing_by
  · simp only [Work.weight]; omega
  · simp only [Work.weight]; omega
  · simp only [Work.weight]; omega
  · have := Work.weight_children_le level true e.children
    simp only [Work.weight, Work.weight_append]; omega

/-- The JSX lines of an element at a level, the `extra` parts behind its own attributes. -/
def lines (quote : Quote) (level : Int) (extra : List (List Char)) (e : Element) :
    List (List Char) :=
  Work.lines quote [.element e level extra]

end SvgComponent.Jsx
