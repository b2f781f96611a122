import SvgComponent.Jsx.Adapt

/-!
# What a pass over a tree comes to

A pass changes elements where they stand, and its pending addresses say where it goes next. Visiting
the children of an element, with all that is below them, changes these children and nothing else,
whatever is pending behind them (`visitFrom_childAddresses`). So a pass comes to every element, and
visits them parents before children (`visitEach_eq`).

* `rename_eq`, `stripIds_eq`, `adapt_eq`: the two passes that adapt a tree to JSX.
-/

namespace SvgComponent.Markup

section
variable {σ : Type} (f : List Attribute → List Attribute) (g : σ → List Attribute → σ)

/-- A visit that gives the attributes `f` and gathers with `g`. -/
def visitBy (gathered : σ) (attributes : List Attribute) : List Attribute × σ :=
  (f attributes, g gathered attributes)

/-- What a pass gathers from elements in turn. -/
def gatherFrom (gathered : σ) (elements : List Element) : σ :=
  elements.foldl (fun gathered e => g gathered e.attributes) gathered

theorem gatherFrom_element (gathered : σ) (tag : List Char) (attributes : List Attribute)
    (children ns : List Node) :
    gatherFrom g gathered (Node.elementsOf (.element tag attributes children :: ns)) =
      gatherFrom g (gatherFrom g (g gathered attributes) (Node.elementsOf children))
        (Node.elementsOf ns) := by
  simp only [gatherFrom, Node.elementsOf, Node.elements, List.foldl_append, List.foldl_cons]

theorem visitFrom_cons {root e : Element} {address : Address} (h : root.at? address = some e)
    (gathered : σ) (pending : List Address) :
    root.visitFrom (visitBy f g) gathered (address :: pending) =
      (root.setAt { e with attributes := f e.attributes } address).visitFrom (visitBy f g)
        (g gathered e.attributes) (Node.childAddresses address 0 e.children ++ pending) := by
  rw [Element.visitFrom]
  split
  · rename_i hnone
    rw [h] at hnone
    cases hnone
  · rename_i e' he
    obtain rfl := Option.some.inj (h.symm.trans he)
    rfl

/-- The first of the children that are still to be visited gets its place anew. -/
theorem setAt_child {root : Element} {address : Address} {tag : List Char}
    {attributes : List Attribute} {seen ns : List Node} (child new : Element)
    (h : root.at? address = some ⟨tag, attributes, seen ++ child.node :: ns⟩) :
    root.at? (address ++ [seen.length]) = some child ∧
      root.setAt new (address ++ [seen.length]) =
        root.setAt ⟨tag, attributes, seen ++ new.node :: ns⟩ address := by
  have hchild : (seen ++ child.node :: ns)[seen.length]? =
      some (.element child.tag child.attributes child.children) := by
    simp [Element.node]
  rw [Element.at?_append h, Element.setAt_append h, Element.at?_cons hchild, Element.setAt_cons hchild]
  refine ⟨rfl, ?_⟩
  simp [Element.setAt]

/-- **Visiting children changes them where they stand.** The children in front of them have been
visited already, and what is pending comes behind all that is below them. -/
theorem visitFrom_childAddresses :
    ∀ (ns seen : List Node) {root : Element} {address : Address} {tag : List Char}
      {attributes : List Attribute} (gathered : σ) (pending : List Address),
      root.at? address = some ⟨tag, attributes, seen ++ ns⟩ →
      root.visitFrom (visitBy f g) gathered
          (Node.childAddresses address seen.length ns ++ pending) =
        (root.setAt ⟨tag, attributes, seen ++ Node.mapAttributesIn f ns⟩ address).visitFrom
          (visitBy f g) (gatherFrom g gathered (Node.elementsOf ns)) pending
  | [], seen, root, address, tag, attributes, gathered, pending, h => by
    rw [Node.mapAttributesIn, Element.setAt_self h]
    rfl
  | .text content :: ns, seen, root, address, tag, attributes, gathered, pending, h => by
    have hrest := visitFrom_childAddresses ns (seen ++ [.text content]) gathered pending
      (by simpa using h)
    simpa [Node.childAddresses, Node.mapAttributesIn, Node.mapAttributes, Node.elementsOf,
      Node.elements] using hrest
  | .comment body :: ns, seen, root, address, tag, attributes, gathered, pending, h => by
    have hrest := visitFrom_childAddresses ns (seen ++ [.comment body]) gathered pending
      (by simpa using h)
    simpa [Node.childAddresses, Node.mapAttributesIn, Node.mapAttributes, Node.elementsOf,
      Node.elements] using hrest
  | .element tag' attributes' children :: ns, seen, root, address, tag, attributes, gathered, pending,
      h => by
    -- the child is visited first, then all below it, and then the children behind it
    let child : Element := ⟨tag', attributes', children⟩
    let new : Element := ⟨tag', f attributes', Node.mapAttributesIn f children⟩
    obtain ⟨hchild, hplace⟩ := setAt_child child new h
    have hbelow := visitFrom_childAddresses children [] (g gathered attributes')
      (Node.childAddresses address (seen.length + 1) ns ++ pending)
      (Element.at?_setAt hchild { child with attributes := f attributes' })
    have hbehind := visitFrom_childAddresses ns (seen ++ [new.node])
      (gatherFrom g (g gathered attributes') (Node.elementsOf children)) pending
      (by rw [List.append_assoc]; exact Element.at?_setAt h ⟨tag, attributes, seen ++ new.node :: ns⟩)
    rw [Element.setAt_setAt hchild, List.nil_append, hplace] at hbelow
    rw [Element.setAt_setAt h, List.append_assoc, List.length_append] at hbehind
    calc root.visitFrom (visitBy f g) gathered
          ((address ++ [seen.length]) :: (Node.childAddresses address (seen.length + 1) ns ++ pending))
        = _ := visitFrom_cons f g hchild gathered _
      _ = _ := hbelow
      _ = _ := hbehind
      _ = _ := by
        rw [gatherFrom_element]
        rfl

/-- **A pass comes to every element**, parents before children. -/
theorem visitEach_eq (root : Element) (gathered : σ) :
    root.visitEach (visitBy f g) gathered =
      (root.mapAttributes f, gatherFrom g gathered root.elements) := by
  have hroot : root.at? [] = some root := rfl
  have hvisited : Element.at? { root with attributes := f root.attributes } [] =
      some ⟨root.tag, f root.attributes, [] ++ root.children⟩ := rfl
  rw [Element.visitEach, visitFrom_cons f g hroot]
  refine (visitFrom_childAddresses f g root.children [] (g gathered root.attributes) [] hvisited).trans ?_
  rw [Element.visitFrom]
  rfl

end

end SvgComponent.Markup

namespace SvgComponent.Jsx

open Markup

/-- **Renaming** changes the attributes of every element. -/
theorem rename_eq (root : Element) : rename root = root.mapAttributes renameAttributes := by
  have hpass := visitEach_eq renameAttributes (fun (_ : Unit) _ => ()) root ()
  exact congrArg Prod.fst hpass

/-- The number of elements that have an identifier. -/
def countIds (elements : List Element) : Nat :=
  elements.countP fun e => hasAttribute idName e.attributes

theorem gatherFrom_takeId (elements : List Element) (count : Nat) :
    gatherFrom (fun count attributes => (takeId count attributes).2) count elements =
      count + countIds elements := by
  unfold gatherFrom countIds
  induction elements generalizing count with
  | nil => rfl
  | cons e elements ih =>
    rw [List.foldl_cons, ih, List.countP_cons]
    cases hid : hasAttribute idName e.attributes with
    | true =>
      simp only [takeId, hid, if_true]
      omega
    | false =>
      simp only [takeId, hid, Bool.false_eq_true, if_false]
      omega

/-- **Dropping identifiers** changes the attributes of every element, and counts those that have one. -/
theorem stripIds_eq (root : Element) :
    stripIds root = (root.mapAttributes dropId, countIds root.elements) := by
  have hpass := visitEach_eq dropId (fun count attributes => (takeId count attributes).2) root 0
  rw [gatherFrom_takeId, Nat.zero_add] at hpass
  exact hpass

/-- Adapting a tree changes the attributes of its elements, once or twice. -/
theorem adapt_eq (root : Element) (withoutIds : Bool) :
    adapt root withoutIds =
      if withoutIds then (root.mapAttributes renameAttributes).mapAttributes dropId
      else root.mapAttributes renameAttributes := by
  rw [adapt, stripIds_eq, rename_eq]

end SvgComponent.Jsx
