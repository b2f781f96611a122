import SvgComponent.Proofs.TreePasses
import SvgComponent.Proofs.Respacing

/-!
# Trees with their texts changed

`Element.mapTexts f` changes the text, the comments and the attribute values of a tree by `f` and leaves
its elements, tags and attribute names. What is built from lexemes does not depend on their contents
(`Builder.run_mapContent`), so a text with other blanks is read as the same tree, with the same change
made to each of its texts (`parse_respacing`). Adapting a tree does not look at its texts either
(`adapt_mapTexts`).
-/

namespace SvgComponent.Markup

open Text

variable (f : List Char → List Char)

/-! ## Trees -/

/-- The attribute with its value changed. -/
def Attribute.mapValue (a : Attribute) : Attribute := ⟨a.name, f a.value⟩

mutual

/-- The node with its texts changed. -/
def Node.mapTexts : Node → Node
  | .element tag attributes children =>
    .element tag (attributes.map (Attribute.mapValue f)) (Node.mapTextsIn children)
  | .text content => .text (f content)
  | .comment body => .comment (f body)

/-- The nodes with their texts changed. -/
def Node.mapTextsIn : List Node → List Node
  | [] => []
  | n :: ns => n.mapTexts :: Node.mapTextsIn ns

end

/-- The element with its texts changed. -/
def Element.mapTexts (e : Element) : Element :=
  ⟨e.tag, e.attributes.map (Attribute.mapValue f), Node.mapTextsIn f e.children⟩

theorem Node.mapTextsIn_append (ns ms : List Node) :
    Node.mapTextsIn f (ns ++ ms) = Node.mapTextsIn f ns ++ Node.mapTextsIn f ms := by
  induction ns with
  | nil => rfl
  | cons n ns ih => simp only [List.cons_append, Node.mapTextsIn, ih]

@[simp] theorem Element.node_mapTexts (e : Element) : (e.mapTexts f).node = e.node.mapTexts f := by
  simp only [Element.node, Element.mapTexts, Node.mapTexts]

@[simp] theorem Element.append_mapTexts (e : Element) (n : Node) :
    (e.mapTexts f).append (n.mapTexts f) = (e.append n).mapTexts f := by
  simp only [Element.append, Element.mapTexts, Node.mapTextsIn_append]
  rfl

/-! ## Attributes -/

@[simp] theorem hasAttribute_mapValue (name : List Char) (attributes : List Attribute) :
    hasAttribute name (attributes.map (Attribute.mapValue f)) = hasAttribute name attributes := by
  rw [hasAttribute, hasAttribute, List.any_map]
  rfl

theorem addAttribute_mapValue (attributes : List Attribute) (a : Attribute) :
    addAttribute (attributes.map (Attribute.mapValue f)) (a.mapValue f) =
      (addAttribute attributes a).map (Attribute.mapValue f) := by
  unfold addAttribute
  rw [hasAttribute_mapValue, show (a.mapValue f).name = a.name from rfl]
  split
  · rfl
  · rw [List.map_append]
    rfl

/-! ## Building -/

theorem addChild_mapTexts (n : Node) (es : List Element) :
    addChild (n.mapTexts f) (es.map (Element.mapTexts f)) = (addChild n es).map (Element.mapTexts f) := by
  cases es with
  | nil => rfl
  | cons e es => simp [addChild]

theorem closeThrough_mapTexts (name : List Char) (e : Element) (parents : List Element) :
    closeThrough name (e.mapTexts f) (parents.map (Element.mapTexts f)) =
      (closeThrough name e parents).map fun closed =>
        (closed.1.mapTexts f, closed.2.map (Element.mapTexts f)) := by
  induction parents generalizing e with
  | nil =>
    rw [List.map_nil, closeThrough, closeThrough, show (e.mapTexts f).tag = e.tag from rfl]
    split <;> rfl
  | cons p ps ih =>
    rw [List.map_cons, closeThrough, closeThrough, show (e.mapTexts f).tag = e.tag from rfl]
    split
    · rfl
    · simp only [Element.node_mapTexts, Element.append_mapTexts, ih]

/-- The tree under construction with its texts changed. -/
def Builder.mapTexts (b : Builder) : Builder :=
  ⟨b.opened.map (Element.mapTexts f), b.pending.map (Element.mapTexts f)⟩

/-- The state with its texts changed. -/
def Progress.mapTexts : Progress → Progress
  | .more b => .more (b.mapTexts f)
  | .done root => .done (root.mapTexts f)

theorem Builder.start_mapTexts (b : Builder) (e : Element) (leavesOpen : Bool) :
    (b.mapTexts f).start (e.mapTexts f) leavesOpen = (b.start e leavesOpen).mapTexts f := by
  obtain ⟨opened, pending⟩ := b
  cases opened with
  | nil =>
    simp only [Builder.start, Builder.mapTexts, List.map_nil, show (e.mapTexts f).tag = e.tag from rfl]
    split
    · split <;> rfl
    · rfl
  | cons p ps =>
    simp only [Builder.start, Builder.mapTexts, List.map_cons]
    split
    · rfl
    · have hchild := addChild_mapTexts f e.node (p :: ps)
      rw [← Element.node_mapTexts, List.map_cons] at hchild
      rw [hchild]
      rfl

theorem Builder.close_mapTexts (b : Builder) (name : List Char) :
    (b.mapTexts f).close name = (b.close name).mapTexts f := by
  obtain ⟨opened, pending⟩ := b
  cases opened with
  | nil => rfl
  | cons e parents =>
    simp only [Builder.close, Builder.mapTexts, List.map_cons, closeThrough_mapTexts]
    cases closeThrough name e parents with
    | none => rfl
    | some closed =>
      obtain ⟨closed, rest⟩ := closed
      cases rest with
      | nil => rfl
      | cons p ps =>
        have hchild := addChild_mapTexts f closed.node (p :: ps)
        rw [← Element.node_mapTexts, List.map_cons] at hchild
        simp only [Option.map_some, List.map_cons, hchild]
        rfl

/-- **One lexeme** has the effect it has, with its content changed as all others are. -/
theorem Builder.feed_mapContent (b : Builder) (l : Lexeme) :
    (b.mapTexts f).feed (l.mapContent f) = (b.feed l).mapTexts f := by
  cases l with
  | text content =>
    simp only [Builder.feed, Lexeme.mapContent, Progress.mapTexts, Builder.mapTexts]
    rw [← addChild_mapTexts, Node.mapTexts]
  | comment body =>
    simp only [Builder.feed, Lexeme.mapContent, Progress.mapTexts, Builder.mapTexts]
    rw [← addChild_mapTexts, Node.mapTexts]
  | cdata content =>
    simp only [Builder.feed, Lexeme.mapContent, Progress.mapTexts, Builder.mapTexts]
    rw [← addChild_mapTexts, Node.mapTexts]
  | openTag name => rfl
  | «attribute» name value =>
    simp only [Builder.feed, Lexeme.mapContent, Progress.mapTexts, Builder.mapTexts, Option.map_map]
    cases b.pending with
    | none => rfl
    | some e =>
      have hadd := addAttribute_mapValue f e.attributes ⟨name, value⟩
      simp only [Option.map_some, Function.comp, Element.mapTexts, ← hadd]
      rfl
  | tagEnd =>
    obtain ⟨opened, pending⟩ := b
    cases pending with
    | none => rfl
    | some e => exact Builder.start_mapTexts f ⟨opened, some e⟩ e (!isVoid e.tag)
  | selfClose =>
    obtain ⟨opened, pending⟩ := b
    cases pending with
    | none => rfl
    | some e => exact Builder.start_mapTexts f ⟨opened, some e⟩ e false
  | closeTag name => exact Builder.close_mapTexts f b name

/-- **All lexemes.** -/
theorem Builder.run_mapContent (b : Builder) (ls : List Lexeme) :
    (b.mapTexts f).run (ls.map (Lexeme.mapContent f)) = (b.run ls).map (Element.mapTexts f) := by
  induction ls generalizing b with
  | nil =>
    simp only [List.map_nil, Builder.run, Builder.mapTexts, List.isEmpty_map]
    rfl
  | cons l ls ih =>
    simp only [List.map_cons, Builder.run, Builder.feed_mapContent]
    cases b.feed l with
    | more b => exact ih b
    | done root => rfl

variable {f}

/-- **A text with other blanks is read as the same tree**, with the texts of the tree changed as the text
is. -/
theorem parse_respacing (hf : Respacing f) (s : List Char) :
    parse (f s) = (parse s).map (Element.mapTexts f) := by
  rw [parse_eq_build, parse_eq_build, lexemes_respacing hf, build]
  exact Builder.run_mapContent f {} _

end SvgComponent.Markup

/-! ## Adapting -/

namespace SvgComponent.Jsx

open Markup

variable (f : List Char → List Char)

theorem renameAttributes_mapValue (attributes : List Attribute) :
    renameAttributes (attributes.map (Attribute.mapValue f)) =
      (renameAttributes attributes).map (Attribute.mapValue f) := by
  have hfold : ∀ renamed : List Attribute,
      (attributes.map (Attribute.mapValue f)).foldl
          (fun renamed a => addAttribute renamed ⟨jsxName a.name, a.value⟩)
          (renamed.map (Attribute.mapValue f)) =
        (attributes.foldl (fun renamed a => addAttribute renamed ⟨jsxName a.name, a.value⟩)
          renamed).map (Attribute.mapValue f) := by
    induction attributes with
    | nil => exact fun _ => rfl
    | cons a as ih =>
      intro renamed
      rw [List.map_cons, List.foldl_cons, List.foldl_cons, ← ih, ← addAttribute_mapValue]
      rfl
  exact hfold []

theorem dropId_mapValue (attributes : List Attribute) :
    dropId (attributes.map (Attribute.mapValue f)) =
      (dropId attributes).map (Attribute.mapValue f) := by
  rw [dropId, dropId, List.filter_map]
  rfl

variable {g : List Attribute → List Attribute}
  (hg : ∀ attributes, g (attributes.map (Attribute.mapValue f)) = (g attributes).map (Attribute.mapValue f))
include hg

theorem mapAttributesIn_mapTextsIn : ∀ ns : List Node,
    Node.mapAttributesIn g (Node.mapTextsIn f ns) = Node.mapTextsIn f (Node.mapAttributesIn g ns)
  | [] => rfl
  | .element tag attributes children :: ns => by
    simp only [Node.mapTextsIn, Node.mapTexts, Node.mapAttributesIn, Node.mapAttributes, hg,
      mapAttributesIn_mapTextsIn children, mapAttributesIn_mapTextsIn ns]
  | .text content :: ns => by
    simp only [Node.mapTextsIn, Node.mapTexts, Node.mapAttributesIn, Node.mapAttributes,
      mapAttributesIn_mapTextsIn ns]
  | .comment body :: ns => by
    simp only [Node.mapTextsIn, Node.mapTexts, Node.mapAttributesIn, Node.mapAttributes,
      mapAttributesIn_mapTextsIn ns]

theorem mapAttributes_mapTexts (e : Element) :
    (e.mapTexts f).mapAttributes g = (e.mapAttributes g).mapTexts f := by
  simp only [Element.mapAttributes, Element.mapTexts, hg, mapAttributesIn_mapTextsIn f hg]

omit hg

/-- **Adapting a tree leaves its texts.** -/
theorem adapt_mapTexts (e : Element) (withoutIds : Bool) :
    adapt (e.mapTexts f) withoutIds = (adapt e withoutIds).mapTexts f := by
  rw [adapt_eq, adapt_eq, mapAttributes_mapTexts f (renameAttributes_mapValue f)]
  split
  · exact mapAttributes_mapTexts f (dropId_mapValue f) _
  · rfl

end SvgComponent.Jsx
