/-!
# Elements, text and comments

* `Attribute`, `Node`, `Element`: a markup tree. An element keeps its attributes in the order in
  which they were written.
* `Element.elements`: an element and all elements below it, parents before children.
* `Element.mapAttributes`, `Element.mapAttributesAt`: new attribute lists on all elements, or on
  one of them.
-/

namespace SvgComponent.Markup

/-- An attribute of an element. -/
structure Attribute where
  name : List Char
  value : List Char
  deriving DecidableEq, Repr

/-- A node of a markup tree. -/
inductive Node where
  | element (tag : List Char) (attributes : List Attribute) (children : List Node)
  | text (content : List Char)
  | comment (body : List Char)
  deriving Repr

/-- An element: a node that has a tag. -/
structure Element where
  tag : List Char
  attributes : List Attribute := []
  children : List Node := []
  deriving Repr

/-- The element as a node. -/
def Element.node (e : Element) : Node := .element e.tag e.attributes e.children

/-- The element with one more child, behind the others. -/
def Element.append (e : Element) (child : Node) : Element :=
  { e with children := e.children ++ [child] }

/-! ## Attribute lists -/

/-- Whether an attribute list has an attribute of this name. -/
def hasAttribute (name : List Char) (attributes : List Attribute) : Bool :=
  attributes.any (·.name == name)

/-- The list with `a` behind the others, unless its name is there already: the first attribute of a
name stays. -/
def addAttribute (attributes : List Attribute) (a : Attribute) : List Attribute :=
  if hasAttribute a.name attributes then attributes else attributes ++ [a]

/-- The list with the value of `a` at the place of its name, or with `a` behind the others if the
name is new: the last value of a name stays. -/
def setAttribute (attributes : List Attribute) (a : Attribute) : List Attribute :=
  if hasAttribute a.name attributes then
    attributes.map fun b => if b.name == a.name then a else b
  else attributes ++ [a]

/-! ## The elements of a tree -/

mutual

/-- The elements of a node, parents before children and earlier before later siblings. -/
def Node.elements : Node → List Element
  | .element tag attributes children => ⟨tag, attributes, children⟩ :: Node.elementsOf children
  | .text _ => []
  | .comment _ => []

/-- The elements of a list of nodes. -/
def Node.elementsOf : List Node → List Element
  | [] => []
  | n :: ns => n.elements ++ Node.elementsOf ns

end

/-- The element and all elements below it, parents before children. -/
def Element.elements (e : Element) : List Element := e.node.elements

mutual

/-- The node with `f` applied to the attributes of every element. -/
def Node.mapAttributes (f : List Attribute → List Attribute) : Node → Node
  | .element tag attributes children =>
    .element tag (f attributes) (Node.mapAttributesIn f children)
  | .text content => .text content
  | .comment body => .comment body

/-- The nodes with `f` applied to the attributes of every element. -/
def Node.mapAttributesIn (f : List Attribute → List Attribute) : List Node → List Node
  | [] => []
  | n :: ns => n.mapAttributes f :: Node.mapAttributesIn f ns

end

/-- The element with `f` applied to the attributes of every element in it. -/
def Element.mapAttributes (f : List Attribute → List Attribute) (e : Element) : Element :=
  ⟨e.tag, f e.attributes, Node.mapAttributesIn f e.children⟩

mutual

/-- The node with `f` applied to the attributes of its element number `index`, elements being
counted in the order of `Node.elements`. -/
def Node.mapAttributesAt (f : List Attribute → List Attribute) (index : Nat) : Node → Node
  | .element tag attributes children =>
    match index with
    | 0 => .element tag (f attributes) children
    | index + 1 => .element tag attributes (Node.mapAttributesAtIn f index children)
  | .text content => .text content
  | .comment body => .comment body

/-- The nodes with `f` applied to the attributes of their element number `index`. -/
def Node.mapAttributesAtIn (f : List Attribute → List Attribute) (index : Nat) :
    List Node → List Node
  | [] => []
  | n :: ns =>
    let count := n.elements.length
    if index < count then n.mapAttributesAt f index :: ns
    else n :: Node.mapAttributesAtIn f (index - count) ns

end

/-- The element with `f` applied to the attributes of its element number `index`. -/
def Element.mapAttributesAt (f : List Attribute → List Attribute) (index : Nat)
    (e : Element) : Element :=
  match index with
  | 0 => { e with attributes := f e.attributes }
  | index + 1 => { e with children := Node.mapAttributesAtIn f index e.children }

/-! ## Preorder rows -/

/-- What a node shows of itself, without its children. -/
inductive Row where
  | element (tag : List Char) (attributes : List Attribute)
  | text (content : List Char)
  | comment (body : List Char)
  deriving DecidableEq, Repr

mutual

/-- The rows of a node and of all below it, each with its depth, parents before children. -/
def Node.rows (depth : Nat) : Node → List (Nat × Row)
  | .element tag attributes children =>
    (depth, .element tag attributes) :: Node.rowsOf (depth + 1) children
  | .text content => [(depth, .text content)]
  | .comment body => [(depth, .comment body)]

/-- The rows of a list of siblings. -/
def Node.rowsOf (depth : Nat) : List Node → List (Nat × Row)
  | [] => []
  | n :: ns => n.rows depth ++ Node.rowsOf depth ns

end

/-- The rows of an element, which itself has depth 0. -/
def Element.rows (e : Element) : List (Nat × Row) := e.node.rows 0

end SvgComponent.Markup
