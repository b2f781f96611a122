import SvgComponent.Proofs.Printing

/-!
# The lines of a tree and the level they stand at

The walk over a tree with a list of pending work makes the lines that recursion on the tree makes
(`lines_eq_framed`). Here the recursion is read in two ways. The lines of children are those of each child
on its own, at its place among them (`childLines_eq_flatMap`). And the level is nothing but indentation: a
tree that is written further in has the same lines, with more spaces in front of every one of them
(`childLines_add`).
-/

namespace SvgComponent.Jsx

open Text Markup

/-! ## Children at their places -/

/-- The lines of children, the first of which stands at the place `place`. -/
theorem childLines_eq_flatMap (quote : Quote) (level : Int) (place : Nat) (ns : List Node) :
    childLines quote level (place == 0) ns =
      (ns.zipIdx place).flatMap fun p =>
        nodeLines quote level (p.2 == 0) (p.2 + 1 == place + ns.length) p.1 := by
  induction ns generalizing place with
  | nil => rfl
  | cons n ns ih =>
    have hlater := ih (place + 1)
    have hlast : (place + 1 == place + (n :: ns).length) = ns.isEmpty := by
      cases ns <;> simp
    have hlength : place + 1 + ns.length = place + (n :: ns).length := by
      rw [List.length_cons]
      omega
    rw [hlength, show (place + 1 == 0) = false from rfl] at hlater
    rw [childLines, List.zipIdx_cons, List.flatMap_cons, hlast, hlater]

/-! ## Levels -/

theorem indentation_add (n level : Nat) :
    indentation ((n + level : Nat) : Int) = indentation n ++ indentation level := by
  simp only [indentation, Int.toNat_natCast, List.replicate_add, List.flatten_append]

/-- The lines of an element further in, given those of its children further in. -/
theorem framed_add (quote : Quote) (n level : Nat) (extra : List (List Char)) (e : Element)
    (inner : List (List Char)) :
    framed quote ((n + level : Nat) : Int) extra e (inner.map (indentation n ++ ·)) =
      (framed quote level extra e inner).map (indentation n ++ ·) := by
  simp only [framed, indentation_add]
  split
  · simp
  split
  · simp
  · simp

theorem textLine_add (n level : Nat) (content : List Char) :
    indentation ((n + level : Nat) : Int) ++ indentUnit ++ content =
      indentation n ++ (indentation level ++ indentUnit ++ content) := by
  rw [indentation_add]
  simp

/-- **A level is nothing but indentation**: the lines of children further in are the same, with more
spaces in front of them. -/
theorem childLines_add (quote : Quote) (n : Nat) : ∀ (level : Nat) (first : Bool) (ns : List Node),
    childLines quote ((n + level : Nat) : Int) first ns =
      (childLines quote level first ns).map (indentation n ++ ·)
  | _, _, [] => rfl
  | level, first, .element tag attributes children :: ns => by
    -- the level of the grandchildren is one further in on both sides
    have hchildren := childLines_add quote n (level + 1) true children
    have hframed := framed_add quote n (level + 1) [] ⟨tag, attributes, children⟩
      (childLines quote ((level + 1 : Nat) : Int) true children)
    rw [← hchildren] at hframed
    rw [childLines, childLines, nodeLines, nodeLines, List.map_append,
      childLines_add quote n level false ns]
    exact congrArg (· ++ _) hframed
  | level, first, .comment body :: ns => by
    rw [childLines, childLines, nodeLines, nodeLines, List.map_append,
      childLines_add quote n level false ns, textLine_add]
    rfl
  | level, first, .text s :: ns => by
    rw [childLines, childLines, nodeLines, nodeLines, List.map_append,
      childLines_add quote n level false ns]
    split
    · rfl
    · rw [textLine_add]
      rfl

/-- **The lines of an element, by recursion on its tree.** An element without content closes itself, text
alone stands on the line of its element, and otherwise the lines of all children stand between those of the
two tags, each child at its place and one level further in. An element further in has the same lines behind
more spaces. -/
theorem lines_recursive (quote : Quote) (level : Nat) (extra : List (List Char)) (e : Element) :
    lines quote level extra e =
        framed quote level extra e (e.children.zipIdx.flatMap fun p =>
          nodeLines quote level (p.2 == 0) (p.2 + 1 == e.children.length) p.1) ∧
      (∀ first last (child : Element),
        nodeLines quote level first last child.node = lines quote (level + 1) [] child) ∧
      lines quote level extra e = (lines quote 0 extra e).map (indentation level ++ ·) := by
  refine ⟨?_, fun first last child => ?_, ?_⟩
  · have hchildren := childLines_eq_flatMap quote level 0 e.children
    rw [Nat.zero_add] at hchildren
    rw [lines_eq_framed, ← hchildren]
    rfl
  · rw [lines_eq_framed, Element.node, nodeLines]
  · have hchildren := childLines_add quote level 0 true e.children
    rw [lines_eq_framed, lines_eq_framed]
    rw [Nat.add_zero] at hchildren
    rw [hchildren]
    exact framed_add quote level 0 extra e _

end SvgComponent.Jsx
