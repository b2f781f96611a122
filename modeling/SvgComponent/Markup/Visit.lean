import SvgComponent.Markup.Node

/-!
# Passes over a tree

A pass visits the elements of a tree one after the other and gives each one other attributes where it
stands. What is still to be visited is a list of pending addresses, so that the depth of a tree is not
limited by the depth of calls.

* `Address`, `Element.at?`, `Element.setAt`: an element of a tree, by the places of the children that
  lead to it.
* `Element.visitFrom`, `Element.visitEach`: a pass, and what it has gathered on the way.
-/

namespace SvgComponent.Markup

/-! ## Addresses -/

/-- The way to an element of a tree: the places of the children that lead to it from the root. -/
abbrev Address := List Nat

/-- The element at an address, if there is one. -/
def Element.at? (root : Element) : Address → Option Element
  | [] => some root
  | i :: address =>
    match root.children[i]? with
    | some (.element tag attributes children) => Element.at? ⟨tag, attributes, children⟩ address
    | _ => none

/-- The tree with another element at an address, or as it is if there is none at it. -/
def Element.setAt (root new : Element) : Address → Element
  | [] => new
  | i :: address =>
    match root.children[i]? with
    | some (.element tag attributes children) =>
      let child := Element.setAt ⟨tag, attributes, children⟩ new address
      { root with children := root.children.set i child.node }
    | _ => root

/-- The addresses of the elements among the children of an element, of which the first ones are left
out: `index` is the place of the first one that is not. -/
def Node.childAddresses (address : Address) (index : Nat) : List Node → List Address
  | [] => []
  | .element _ _ _ :: ns => (address ++ [index]) :: Node.childAddresses address (index + 1) ns
  | .text _ :: ns => Node.childAddresses address (index + 1) ns
  | .comment _ :: ns => Node.childAddresses address (index + 1) ns

section
variable {root e : Element} {address : Address}

section
variable {i : Nat} {tag : List Char} {attributes : List Attribute} {children : List Node}
  (h : root.children[i]? = some (.element tag attributes children))
include h

theorem Element.at?_cons (address : Address) :
    root.at? (i :: address) = Element.at? ⟨tag, attributes, children⟩ address := by
  rw [Element.at?, h]

theorem Element.setAt_cons (new : Element) (address : Address) :
    root.setAt new (i :: address) =
      { root with
        children := root.children.set i (Element.setAt ⟨tag, attributes, children⟩ new address).node } := by
  rw [Element.setAt, h]

theorem getElem?_set_child (new : Element) :
    (root.children.set i new.node)[i]? = some (.element new.tag new.attributes new.children) := by
  rw [List.getElem?_set_self (List.getElem?_eq_some_iff.1 h).1]
  rfl

end

theorem Element.exists_child {i : Nat} (h : root.at? (i :: address) = some e) :
    ∃ tag attributes children, root.children[i]? = some (.element tag attributes children) ∧
      Element.at? ⟨tag, attributes, children⟩ address = some e := by
  unfold Element.at? at h
  split at h
  · rename_i tag attributes children hchild
    exact ⟨tag, attributes, children, hchild, h⟩
  · cases h

theorem Element.at?_append (h : root.at? address = some e) (further : Address) :
    root.at? (address ++ further) = e.at? further := by
  induction address generalizing root with
  | nil =>
    cases h
    rfl
  | cons i address ih =>
    obtain ⟨tag, attributes, children, hchild, hbelow⟩ := Element.exists_child h
    rw [List.cons_append, Element.at?_cons hchild, ih hbelow]

theorem Element.setAt_append (h : root.at? address = some e) (new : Element) (further : Address) :
    root.setAt new (address ++ further) = root.setAt (e.setAt new further) address := by
  induction address generalizing root with
  | nil =>
    cases h
    rfl
  | cons i address ih =>
    obtain ⟨tag, attributes, children, hchild, hbelow⟩ := Element.exists_child h
    rw [List.cons_append, Element.setAt_cons hchild, Element.setAt_cons hchild, ih hbelow]

theorem Element.at?_setAt (h : root.at? address = some e) (new : Element) :
    (root.setAt new address).at? address = some new := by
  induction address generalizing root with
  | nil => rfl
  | cons i address ih =>
    obtain ⟨tag, attributes, children, hchild, hbelow⟩ := Element.exists_child h
    rw [Element.setAt_cons hchild, Element.at?_cons (getElem?_set_child hchild _)]
    exact ih hbelow

theorem Element.setAt_setAt (h : root.at? address = some e) (new newer : Element) :
    (root.setAt new address).setAt newer address = root.setAt newer address := by
  induction address generalizing root with
  | nil => rfl
  | cons i address ih =>
    obtain ⟨tag, attributes, children, hchild, hbelow⟩ := Element.exists_child h
    rw [Element.setAt_cons hchild, Element.setAt_cons hchild,
      Element.setAt_cons (getElem?_set_child hchild _), List.set_set]
    exact congrArg (fun child => { root with children := root.children.set i child.node }) (ih hbelow)

/-- An element put back where it is changes nothing. -/
theorem Element.setAt_self (h : root.at? address = some e) : root.setAt e address = root := by
  induction address generalizing root with
  | nil =>
    cases h
    rfl
  | cons i address ih =>
    obtain ⟨tag, attributes, children, hchild, hbelow⟩ := Element.exists_child h
    obtain ⟨hi, hget⟩ := List.getElem?_eq_some_iff.1 hchild
    have hsame : root.children.set i (.element tag attributes children) = root.children := by
      rw [← hget, List.set_getElem_self]
    rw [Element.setAt_cons hchild, ih hbelow]
    exact congrArg (fun children => { root with children }) hsame

end

/-! ## The pass -/

/-- The number of elements at an address and below it; an address at which there is none still takes
a step of a pass. -/
def Element.weightAt (root : Element) (address : Address) : Nat :=
  match root.at? address with
  | some e => e.elements.length
  | none => 1

theorem length_elementsOf_set {n n' : Node} (h : n'.elements.length = n.elements.length) :
    ∀ (ns : List Node) {i : Nat}, ns[i]? = some n →
      (Node.elementsOf (ns.set i n')).length = (Node.elementsOf ns).length
  | m :: ns, 0, hi => by
    obtain rfl := Option.some.inj hi
    simp only [List.set_cons_zero, Node.elementsOf, List.length_append, h]
  | m :: ns, i + 1, hi => by
    simp only [List.set_cons_succ, Node.elementsOf, List.length_append,
      length_elementsOf_set h ns hi]

/-- Other attributes on an element leave all elements where they are. -/
theorem weightAt_setAt {root e : Element} {address : Address} (h : root.at? address = some e)
    (attributes : List Attribute) (other : Address) :
    (root.setAt { e with attributes } address).weightAt other = root.weightAt other := by
  induction address generalizing root other with
  | nil =>
    cases h
    cases other with
    | nil => rfl
    | cons j other => rfl
  | cons i address ih =>
    obtain ⟨tag, as, children, hchild, hbelow⟩ := Element.exists_child h
    rw [Element.setAt_cons hchild]
    cases other with
    | nil =>
      have hcount := ih hbelow []
      change (Node.elementsOf (root.children.set i _)).length + 1 =
        (Node.elementsOf root.children).length + 1
      rw [length_elementsOf_set hcount _ hchild]
    | cons j other =>
      unfold Element.weightAt
      by_cases hij : i = j
      · subst hij
        rw [Element.at?_cons (getElem?_set_child hchild _), Element.at?_cons hchild]
        exact ih hbelow other
      · have hother : (root.children.set i (Element.setAt ⟨tag, as, children⟩
            { e with attributes } address).node)[j]? = root.children[j]? :=
          List.getElem?_set_ne hij
        rw [Element.at?, hother, Element.at?]

/-- The number of steps that a pass takes from pending addresses on. -/
def Element.weightOf (root : Element) : List Address → Nat
  | [] => 0
  | address :: pending => root.weightAt address + root.weightOf pending

theorem weightOf_append (root : Element) (pending further : List Address) :
    root.weightOf (pending ++ further) = root.weightOf pending + root.weightOf further := by
  induction pending with
  | nil => rw [List.nil_append, Element.weightOf, Nat.zero_add]
  | cons address pending ih => rw [List.cons_append, Element.weightOf, Element.weightOf, ih, Nat.add_assoc]

theorem weightOf_setAt {root e : Element} {address : Address} (h : root.at? address = some e)
    (attributes : List Attribute) (pending : List Address) :
    (root.setAt { e with attributes } address).weightOf pending = root.weightOf pending := by
  induction pending with
  | nil => rfl
  | cons other pending ih => rw [Element.weightOf, Element.weightOf, weightAt_setAt h, ih]

/-- The children of an element have all that is below it. -/
theorem weightOf_childAddresses {root e : Element} {address : Address}
    (h : root.at? address = some e) :
    ∀ (seen ns : List Node), e.children = seen ++ ns →
      root.weightOf (Node.childAddresses address seen.length ns) = (Node.elementsOf ns).length
  | seen, [], _ => rfl
  | seen, n :: ns, hsplit => by
    have hrest := weightOf_childAddresses h (seen ++ [n]) ns (by simpa using hsplit)
    rw [List.length_append, List.length_singleton] at hrest
    cases n with
    | element tag attributes children =>
      have hchild : e.children[seen.length]? = some (.element tag attributes children) := by
        simp [hsplit]
      have hweight : root.weightAt (address ++ [seen.length]) =
          (Node.elements (.element tag attributes children)).length := by
        rw [Element.weightAt, Element.at?_append h, Element.at?_cons hchild]
        rfl
      rw [Node.childAddresses, Element.weightOf, hweight, hrest, Node.elementsOf, List.length_append]
    | text content => exact hrest
    | comment body => exact hrest

/-- A pass from pending addresses on: the element at the first one is visited, and then its children
wait in front of the rest. A visit gives an element other attributes and adds to what the pass has
gathered. -/
def Element.visitFrom {σ : Type} (visit : σ → List Attribute → List Attribute × σ) (root : Element)
    (gathered : σ) : List Address → Element × σ
  | [] => (root, gathered)
  | address :: pending =>
    match _h : root.at? address with
    | none => root.visitFrom visit gathered pending
    | some e =>
      let visited := visit gathered e.attributes
      (root.setAt { e with attributes := visited.1 } address).visitFrom visit visited.2
        (Node.childAddresses address 0 e.children ++ pending)
termination_by pending => root.weightOf pending
decreasing_by
  · have hweight : root.weightAt address = 1 := by rw [Element.weightAt, _h]
    rw [Element.weightOf, hweight]
    omega
  · have hchildren := weightOf_childAddresses _h [] e.children rfl
    have hweight : root.weightAt address = (Node.elementsOf e.children).length + 1 := by
      rw [Element.weightAt, _h]
      rfl
    rw [List.length_nil] at hchildren
    rw [weightOf_setAt _h, weightOf_append, hchildren, Element.weightOf, hweight]
    omega

/-- A pass over an element and all elements below it, and what it has gathered. -/
def Element.visitEach {σ : Type} (visit : σ → List Attribute → List Attribute × σ) (gathered : σ)
    (root : Element) : Element × σ :=
  root.visitFrom visit gathered [[]]

end SvgComponent.Markup
