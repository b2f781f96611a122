import SvgComponent.Markup.Visit
import SvgComponent.Markup.Vocabulary

/-!
# Adapting a tree to JSX

Attributes take their JSX spelling, and identifiers can be dropped. Each is a pass over the tree that
gives every element other attributes where it stands. Neither touches tags, text, comments or nesting.
-/

namespace SvgComponent.Jsx

open Markup

/-- The attributes under their JSX names, in order. Of several that have the same JSX name the first
stays. -/
def renameAttributes (attributes : List Attribute) : List Attribute :=
  attributes.foldl (fun renamed a => addAttribute renamed ⟨jsxName a.name, a.value⟩) []

/-- The name of the attribute that identifies an element. -/
def idName : List Char := "id".toList

/-- The attributes other than the identifier. -/
def dropId (attributes : List Attribute) : List Attribute :=
  attributes.filter (·.name != idName)

/-- The tree after a pass that gives every element its JSX attribute names. -/
def rename (root : Element) : Element :=
  (root.visitEach (fun _ attributes => (renameAttributes attributes, ())) ()).1

/-- The attributes without the identifier, and `count` with it if there was one. -/
def takeId (count : Nat) (attributes : List Attribute) : List Attribute × Nat :=
  (dropId attributes, if hasAttribute idName attributes then count + 1 else count)

/-- The tree after a pass that drops identifiers, and the number of those that were dropped. -/
def stripIds (root : Element) : Element × Nat := root.visitEach takeId 0

/-- The tree adapted to JSX, without identifiers if asked. -/
def adapt (root : Element) (withoutIds : Bool) : Element :=
  if withoutIds then (stripIds (rename root)).1 else rename root

end SvgComponent.Jsx
