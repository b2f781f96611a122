import Mathlib.Data.List.Forall2
import SvgComponent.Proofs.Rendering

/-!
# Outlines of trees

The outline of an element keeps its tag, its attributes, the text right below it put together, and
the outlines of its child elements. It forgets how that text is cut into runs, where it stands among
the child elements, and comments.

* `Outline.Alike value text`: the same elements, tags and attribute names, with values and text that
  are related.
* `Builder.Alike.feed`, `Builder.Alike.run`: builders that are alike stay alike when they are fed
  lexemes that are alike, so that reading can be followed up to what an outline shows.
* `outlineAfter opened s`: the outline of the tree that is read from `s` with the elements `opened`
  open. Up to outlines text is read character by character, whatever stands behind it
  (`outlineAfter_text`).
-/

namespace SvgComponent.Markup

open Text

/-- What is seen of an element in outline. -/
inductive Outline where
  | mk (tag : List Char) (attributes : List Attribute) (text : List Char) (children : List Outline)
  deriving Repr

/-- The text runs among siblings, put together. -/
def directText : List Node → List Char
  | [] => []
  | .text s :: ns => s ++ directText ns
  | _ :: ns => directText ns

mutual

/-- The outline of a node that is an element. -/
def Node.outlines : Node → List Outline
  | .element tag attributes children =>
    [.mk tag attributes (directText children) (Node.outlinesOf children)]
  | .text _ => []
  | .comment _ => []

/-- The outlines of the elements among siblings. -/
def Node.outlinesOf : List Node → List Outline
  | [] => []
  | n :: ns => n.outlines ++ Node.outlinesOf ns

end

/-- The outline of an element. -/
def Element.outline (e : Element) : Outline :=
  .mk e.tag e.attributes (directText e.children) (Node.outlinesOf e.children)

@[simp] theorem directText_append (ns ms : List Node) :
    directText (ns ++ ms) = directText ns ++ directText ms := by
  induction ns with
  | nil => rfl
  | cons n ns ih => cases n <;> simp [directText, ih]

@[simp] theorem outlinesOf_append (ns ms : List Node) :
    Node.outlinesOf (ns ++ ms) = Node.outlinesOf ns ++ Node.outlinesOf ms := by
  induction ns with
  | nil => rfl
  | cons n ns ih => simp [Node.outlinesOf, ih]

/-! ## Outlines that are alike -/

section
variable (value text : List Char → List Char → Prop)

/-- Attributes of one name with related values. -/
def Attribute.Alike (a b : Attribute) : Prop := a.name = b.name ∧ value a.value b.value

mutual

/-- Outlines of the same elements: the tags are the same, the attributes have the same names in the
same order and values related by `value`, and the text of each element is related by `text`. -/
def Outline.Alike : Outline → Outline → Prop
  | .mk tag attributes content children, .mk tag' attributes' content' children' =>
    tag = tag' ∧ List.Forall₂ (Attribute.Alike value) attributes attributes' ∧
      text content content' ∧ Outline.AllAlike children children'

/-- As many outlines, pairwise alike. -/
def Outline.AllAlike : List Outline → List Outline → Prop
  | [], [] => True
  | o :: os, p :: ps => o.Alike p ∧ Outline.AllAlike os ps
  | _, _ => False

end

end

theorem allAlike_append {value text : List Char → List Char → Prop} :
    ∀ {os ps os' ps' : List Outline}, Outline.AllAlike value text os ps →
      Outline.AllAlike value text os' ps' → Outline.AllAlike value text (os ++ os') (ps ++ ps')
  | [], [], _, _, _, h => h
  | _ :: _, _ :: _, _, _, h, h' => ⟨h.1, allAlike_append h.2 h'⟩

theorem alikeAttributes_refl (as : List Attribute) : List.Forall₂ (Attribute.Alike Eq) as as :=
  List.forall₂_same.2 fun _ _ => ⟨rfl, rfl⟩

mutual

theorem Outline.alike_refl : ∀ o : Outline, o.Alike Eq Eq o
  | .mk _ _ _ children =>
    ⟨rfl, alikeAttributes_refl _, rfl, Outline.allAlike_refl children⟩

theorem Outline.allAlike_refl : ∀ os : List Outline, Outline.AllAlike Eq Eq os os
  | [] => trivial
  | o :: os => ⟨o.alike_refl, Outline.allAlike_refl os⟩

end

mutual

theorem Outline.eq_of_alike : ∀ {o p : Outline}, o.Alike Eq Eq p → o = p
  | .mk _ as _ os, .mk _ bs _ ps, h => by
    obtain ⟨rfl, ha, rfl, hc⟩ := h
    have heq : List.Forall₂ Eq as bs := ha.imp fun a b hab => by
      obtain ⟨name, value⟩ := a
      obtain ⟨rfl, rfl⟩ := hab
      rfl
    rw [List.forall₂_eq_eq_eq] at heq
    rw [heq, Outline.eq_of_allAlike hc]

theorem Outline.eq_of_allAlike : ∀ {os ps : List Outline}, Outline.AllAlike Eq Eq os ps → os = ps
  | [], [], _ => rfl
  | _ :: _, _ :: _, h => by rw [Outline.eq_of_alike h.1, Outline.eq_of_allAlike h.2]

end

section
variable {v v' v'' t t' t'' : List Char → List Char → Prop}

theorem alikeAttributes_trans (hv : ∀ a b c, v a b → v' b c → v'' a c) {as bs cs : List Attribute}
    (h : List.Forall₂ (Attribute.Alike v) as bs) (h' : List.Forall₂ (Attribute.Alike v') bs cs) :
    List.Forall₂ (Attribute.Alike v'') as cs := by
  induction h generalizing cs with
  | nil =>
    cases h'
    exact .nil
  | cons hab _ ih =>
    cases h' with
    | cons hbc h' => exact .cons ⟨hab.1.trans hbc.1, hv _ _ _ hab.2 hbc.2⟩ (ih h')

mutual

theorem Outline.Alike.trans (hv : ∀ a b c, v a b → v' b c → v'' a c)
    (ht : ∀ a b c, t a b → t' b c → t'' a c) :
    ∀ {o p q : Outline}, o.Alike v t p → p.Alike v' t' q → o.Alike v'' t'' q
  | .mk _ _ _ _, .mk _ _ _ _, .mk _ _ _ _, ⟨h, ha, hx, hc⟩, ⟨h', ha', hx', hc'⟩ =>
    ⟨h.trans h', alikeAttributes_trans hv ha ha', ht _ _ _ hx hx',
      Outline.AllAlike.trans hv ht hc hc'⟩

theorem Outline.AllAlike.trans (hv : ∀ a b c, v a b → v' b c → v'' a c)
    (ht : ∀ a b c, t a b → t' b c → t'' a c) :
    ∀ {os ps qs : List Outline}, Outline.AllAlike v t os ps → Outline.AllAlike v' t' ps qs →
      Outline.AllAlike v'' t'' os qs
  | [], [], [], _, _ => trivial
  | _ :: _, _ :: _, _ :: _, h, h' => ⟨h.1.trans hv ht h'.1, h.2.trans hv ht h'.2⟩

end

theorem alikeAttributes_symm (hv : ∀ a b, v a b → v' b a) {as bs : List Attribute}
    (h : List.Forall₂ (Attribute.Alike v) as bs) : List.Forall₂ (Attribute.Alike v') bs as := by
  induction h with
  | nil => exact .nil
  | cons hab _ ih => exact .cons ⟨hab.1.symm, hv _ _ hab.2⟩ ih

mutual

theorem Outline.Alike.symm (hv : ∀ a b, v a b → v' b a) (ht : ∀ a b, t a b → t' b a) :
    ∀ {o p : Outline}, o.Alike v t p → p.Alike v' t' o
  | .mk _ _ _ _, .mk _ _ _ _, ⟨h, ha, hx, hc⟩ =>
    ⟨h.symm, alikeAttributes_symm hv ha, ht _ _ hx, Outline.AllAlike.symm hv ht hc⟩

theorem Outline.AllAlike.symm (hv : ∀ a b, v a b → v' b a) (ht : ∀ a b, t a b → t' b a) :
    ∀ {os ps : List Outline}, Outline.AllAlike v t os ps → Outline.AllAlike v' t' ps os
  | [], [], _ => trivial
  | _ :: _, _ :: _, h => ⟨h.1.symm hv ht, h.2.symm hv ht⟩

end

theorem Outline.Alike.mono {o p : Outline} (hv : ∀ a b, v a b → v' a b) (ht : ∀ a b, t a b → t' a b)
    (h : o.Alike v t p) : o.Alike v' t' p :=
  h.trans (fun _ _ _ hab e => e ▸ hv _ _ hab) (fun _ _ _ hab e => e ▸ ht _ _ hab) p.alike_refl

end

/-! ## Builders that are alike -/

section
variable {value text : List Char → List Char → Prop}

theorem hasAttribute_alike (name : List Char) {as bs : List Attribute}
    (h : List.Forall₂ (Attribute.Alike value) as bs) :
    hasAttribute name as = hasAttribute name bs := by
  induction h with
  | nil => rfl
  | cons hab _ ih => simp only [hasAttribute, List.any_cons] at ih ⊢; rw [hab.1, ih]

theorem addAttribute_alike {as bs : List Attribute} {a b : Attribute}
    (h : List.Forall₂ (Attribute.Alike value) as bs) (hab : a.Alike value b) :
    List.Forall₂ (Attribute.Alike value) (addAttribute as a) (addAttribute bs b) := by
  rw [addAttribute, addAttribute, hab.1, hasAttribute_alike b.name h]
  split
  · exact h
  · exact List.rel_append h (.cons hab .nil)

variable (value text)

/-- Siblings that look alike: related text in all, and elements alike in outline. -/
def AlikeNodes (ns ms : List Node) : Prop :=
  text (directText ns) (directText ms) ∧
    Outline.AllAlike value text (Node.outlinesOf ns) (Node.outlinesOf ms)

/-- Elements that are alike in outline. -/
def Element.Alike (e e' : Element) : Prop := e.outline.Alike value text e'.outline

/-- Builders whose open elements and whose pending start tags are alike. -/
def Builder.Alike (b b' : Builder) : Prop :=
  List.Forall₂ (Element.Alike value text) b.opened b'.opened ∧
    Option.Rel (Element.Alike value text) b.pending b'.pending

/-- States of the same kind that are alike. -/
def Progress.Alike : Progress → Progress → Prop
  | .more b, .more b' => b.Alike value text b'
  | .done root, .done root' => root.Alike value text root'
  | _, _ => False

/-- What comes of a state and further lexemes. -/
def Progress.finish (ls : List Lexeme) : Progress → Except ParseError Element
  | .more b => b.run ls
  | .done root => .ok root

theorem run_cons (b : Builder) (l : Lexeme) (ls : List Lexeme) :
    b.run (l :: ls) = (b.feed l).finish ls := by
  rw [Builder.run]
  cases b.feed l <;> rfl

/-- Results of the same kind, with trees that are alike. -/
def AlikeResults : Except ParseError Element → Except ParseError Element → Prop
  | .ok root, .ok root' => root.Alike value text root'
  | .error x, .error y => x = y
  | _, _ => False

/-- Lexemes of the same kind with the same names and related contents. -/
inductive Lexeme.Alike : Lexeme → Lexeme → Prop
  | text {s t} : text s t → Alike (.text s) (.text t)
  | comment {s t} : Alike (.comment s) (.comment t)
  | cdata {s t} : text s t → Alike (.cdata s) (.cdata t)
  | openTag {name} : Alike (.openTag name) (.openTag name)
  | attribute {name s t} : value s t → Alike (.attribute name s) (.attribute name t)
  | tagEnd : Alike .tagEnd .tagEnd
  | selfClose : Alike .selfClose .selfClose
  | closeTag {name} : Alike (.closeTag name) (.closeTag name)

variable {value text}

theorem Lexeme.alike_refl (hv : ∀ s, value s s) (ht : ∀ s, text s s) :
    ∀ l : Lexeme, l.Alike value text l
  | .text s => .text (ht s)
  | .comment _ => .comment
  | .cdata s => .cdata (ht s)
  | .openTag _ => .openTag
  | .attribute _ s => .attribute (hv s)
  | .tagEnd => .tagEnd
  | .selfClose => .selfClose
  | .closeTag _ => .closeTag

/-- That text can be put together: pieces that are related give related text. -/
structure Additive (text : List Char → List Char → Prop) : Prop where
  nil : text [] []
  append {a b c d : List Char} : text a b → text c d → text (a ++ c) (b ++ d)

theorem additive_eq : Additive Eq := ⟨rfl, fun h h' => by rw [h, h']⟩

theorem Element.Alike.tag {e e' : Element} (h : e.Alike value text e') : e.tag = e'.tag := h.1

variable (ht : Additive text)
include ht

theorem alikeNodes_nil : AlikeNodes value text [] [] := ⟨ht.nil, trivial⟩

omit ht in
theorem alikeNodes_text {s t : List Char} (h : text s t) :
    AlikeNodes value text [.text s] [.text t] := by
  refine ⟨?_, trivial⟩
  simpa [directText] using h

theorem alikeNodes_element {e e' : Element} (h : e.Alike value text e') :
    AlikeNodes value text [e.node] [e'.node] :=
  ⟨ht.nil, h, trivial⟩

theorem Element.Alike.extend {e e' : Element} {ns ms : List Node} (h : e.Alike value text e')
    (hn : AlikeNodes value text ns ms) : (e.extend ns).Alike value text (e'.extend ms) := by
  obtain ⟨htag, ha, hx, hc⟩ := h
  refine ⟨htag, ha, ?_, ?_⟩
  · simpa [Element.extend] using ht.append hx hn.1
  · simpa [Element.extend] using allAlike_append hc hn.2

theorem addChild_alike {n m : Node} {es es' : List Element} (hn : AlikeNodes value text [n] [m])
    (h : List.Forall₂ (Element.Alike value text) es es') :
    List.Forall₂ (Element.Alike value text) (addChild n es) (addChild m es') := by
  cases h with
  | nil => exact .nil
  | cons he h => exact .cons (he.extend ht hn) h

/-- Closing elements that are alike finds the same place, and elements that are alike. -/
theorem closeThrough_alike (name : List Char) {e e' : Element} {ps ps' : List Element}
    (he : e.Alike value text e') (hp : List.Forall₂ (Element.Alike value text) ps ps') :
    Option.Rel (fun r r' => r.1.Alike value text r'.1 ∧
        List.Forall₂ (Element.Alike value text) r.2 r'.2)
      (closeThrough name e ps) (closeThrough name e' ps') := by
  induction hp generalizing e e' with
  | nil =>
    rw [closeThrough, closeThrough, he.tag]
    split
    · exact .some ⟨he, .nil⟩
    · exact .none
  | cons h hp ih =>
    rw [closeThrough, closeThrough, he.tag]
    split
    · exact .some ⟨he, .cons h hp⟩
    · exact ih (h.extend ht (alikeNodes_element ht he))

theorem Builder.Alike.start {b b' : Builder} {e e' : Element} (h : b.Alike value text b')
    (he : e.Alike value text e') (leavesOpen : Bool) :
    (b.start e leavesOpen).Alike value text (b'.start e' leavesOpen) := by
  obtain ⟨opened, pending⟩ := b
  obtain ⟨opened', pending'⟩ := b'
  obtain ⟨ho, -⟩ := h
  cases ho with
  | nil =>
    simp only [Builder.start, he.tag]
    split
    · split
      · exact ⟨.cons he .nil, .none⟩
      · exact he
    · exact ⟨.nil, .none⟩
  | cons hp hps =>
    simp only [Builder.start]
    split
    · exact ⟨.cons he (.cons hp hps), .none⟩
    · exact ⟨addChild_alike ht (alikeNodes_element ht he) (.cons hp hps), .none⟩

theorem Builder.Alike.close {b b' : Builder} (h : b.Alike value text b') (name : List Char) :
    (b.close name).Alike value text (b'.close name) := by
  obtain ⟨opened, pending⟩ := b
  obtain ⟨opened', pending'⟩ := b'
  obtain ⟨ho, hpending⟩ := h
  cases ho with
  | nil => exact ⟨.nil, hpending⟩
  | @cons e e' es es' he hes =>
    have hc := closeThrough_alike ht name he hes
    simp only [Builder.close]
    cases hl : closeThrough name e es with
    | none =>
      rw [hl] at hc
      cases hr : closeThrough name e' es' with
      | none => exact ⟨.cons he hes, hpending⟩
      | some r' => rw [hr] at hc; cases hc
    | some r =>
      rw [hl] at hc
      cases hr : closeThrough name e' es' with
      | none => rw [hr] at hc; cases hc
      | some r' =>
        rw [hr] at hc
        obtain ⟨closed, rest⟩ := r
        obtain ⟨closed', rest'⟩ := r'
        cases hc with
        | some hc =>
          obtain ⟨h1, h2⟩ := hc
          cases h2 with
          | nil => exact h1
          | cons hp hps =>
            exact ⟨addChild_alike ht (alikeNodes_element ht h1) (.cons hp hps), hpending⟩

/-- A start tag that is complete keeps builders alike. -/
theorem Builder.Alike.finishTag {b b' : Builder} (h : b.Alike value text b')
    (leavesOpen : Element → Bool)
    (hl : ∀ {e e' : Element}, e.Alike value text e' → leavesOpen e = leavesOpen e') :
    (match b.pending with
      | none => Progress.more b
      | some e => b.start e (leavesOpen e)).Alike value text
    (match b'.pending with
      | none => Progress.more b'
      | some e => b'.start e (leavesOpen e)) := by
  have hp := h.2
  cases hb : b.pending with
  | none =>
    rw [hb] at hp
    cases hb' : b'.pending with
    | none => exact h
    | some e' => rw [hb'] at hp; cases hp
  | some e =>
    rw [hb] at hp
    cases hb' : b'.pending with
    | none => rw [hb'] at hp; cases hp
    | some e' =>
      rw [hb'] at hp
      cases hp with
      | some he =>
        show (b.start e (leavesOpen e)).Alike value text (b'.start e' (leavesOpen e'))
        rw [hl he]
        exact h.start ht he _

/-- One lexeme keeps builders alike. -/
theorem Builder.Alike.feed {b b' : Builder} (h : b.Alike value text b') {l l' : Lexeme}
    (hl : l.Alike value text l') : (b.feed l).Alike value text (b'.feed l') := by
  cases hl with
  | openTag => exact ⟨h.1, .some ⟨rfl, .nil, ht.nil, trivial⟩⟩
  | «attribute» hv =>
    refine ⟨h.1, ?_⟩
    have hp := h.2
    simp only []
    cases hb : b.pending <;> cases hb' : b'.pending <;> rw [hb, hb'] at hp <;> cases hp
    · exact .none
    · rename_i he
      exact .some ⟨he.1, addAttribute_alike he.2.1 ⟨rfl, hv⟩, he.2.2⟩
  | tagEnd => exact h.finishTag ht (fun e => !isVoid e.tag) fun he => by rw [he.tag]
  | selfClose => exact h.finishTag ht (fun _ => false) fun _ => rfl
  | closeTag => exact h.close ht _
  | text hx => exact ⟨addChild_alike ht (alikeNodes_text hx) h.1, h.2⟩
  | cdata hx => exact ⟨addChild_alike ht (alikeNodes_text hx) h.1, h.2⟩
  | comment => exact ⟨addChild_alike ht (alikeNodes_nil ht) h.1, h.2⟩

omit ht in
/-- States that are alike lead to results that are alike, if builders do. -/
theorem Progress.Alike.results {x x' : Progress} (hx : x.Alike value text x') {ls ls' : List Lexeme}
    (h : ∀ {b b' : Builder}, b.Alike value text b' →
      AlikeResults value text (b.run ls) (b'.run ls')) :
    AlikeResults value text (x.finish ls) (x'.finish ls') := by
  cases x with
  | more b =>
    cases x' with
    | more b' => exact h hx
    | done root => exact hx.elim
  | done root =>
    cases x' with
    | more b' => exact hx.elim
    | done root' => exact hx

/-- A whole run keeps them alike. -/
theorem Builder.Alike.run {b b' : Builder} (h : b.Alike value text b') {ls ls' : List Lexeme}
    (hls : List.Forall₂ (Lexeme.Alike value text) ls ls') :
    AlikeResults value text (b.run ls) (b'.run ls') := by
  induction hls generalizing b b' with
  | nil =>
    have he := h.1.length_eq
    simp only [Builder.run, AlikeResults, List.isEmpty_iff_length_eq_zero, he]
  | cons hl _ ih =>
    rw [run_cons, run_cons]
    exact (h.feed ht hl).results ih

end

/-! ## Reading up to outlines -/

/-- The outline of the tree that is read from `s` with the elements `opened` open, innermost first. -/
def outlineAfter (opened : List Element) (s : List Char) : Except ParseError Outline :=
  (Builder.run ⟨opened, none⟩ (lexemes .content s)).map Element.outline

/-- A tree can be read, and a check on it passes, if the check passes on what is read. -/
theorem exists_parse_of_any {s : List Char} {p : Element → Bool}
    (h : (parse s).toOption.any p = true) : ∃ root, parse s = .ok root ∧ p root = true := by
  cases hp : parse s with
  | error e => simp [hp, Except.toOption] at h
  | ok root => exact ⟨root, rfl, by simpa [hp, Except.toOption] using h⟩

theorem exists_parse_of_outlineAfter {s : List Char} {o : Outline} (h : outlineAfter [] s = .ok o) :
    ∃ back, parse s = .ok back ∧ back.outline = o := by
  change (parse s).map Element.outline = .ok o at h
  cases hp : parse s with
  | error e => simp [hp, Except.map] at h
  | ok back => exact ⟨back, rfl, by simpa [hp, Except.map] using h⟩

theorem outlineAfter_alike {es es' : List Element}
    (h : es.map Element.outline = es'.map Element.outline) (s : List Char) :
    outlineAfter es s = outlineAfter es' s := by
  have hes : List.Forall₂ (Element.Alike Eq Eq) es es' := by
    rw [← List.forall₂_eq_eq_eq, List.forall₂_map_left_iff, List.forall₂_map_right_iff] at h
    exact h.imp fun e e' he => by
      rw [Element.Alike, he]
      exact e'.outline.alike_refl
  have hb : Builder.Alike Eq Eq ⟨es, none⟩ ⟨es', none⟩ := ⟨hes, .none⟩
  have hsame : List.Forall₂ (Lexeme.Alike Eq Eq) (lexemes .content s) (lexemes .content s) :=
    List.forall₂_same.2 fun l _ => l.alike_refl (fun _ => rfl) (fun _ => rfl)
  have hr := hb.run additive_eq hsame
  rw [outlineAfter, outlineAfter]
  cases hl : Builder.run ⟨es, none⟩ (lexemes .content s) <;>
    cases hr' : Builder.run ⟨es', none⟩ (lexemes .content s) <;> rw [hl, hr'] at hr
  · exact congrArg Except.error hr
  · exact hr.elim
  · exact hr.elim
  · exact congrArg Except.ok (Outline.eq_of_alike hr)

/-- The text up to the next `<` makes one lexeme, or none if there is none. -/
theorem lexemes_textRun (s : List Char) :
    lexemes .content s =
      (if s.takeWhile isTextChar = [] then [] else [.text (s.takeWhile isTextChar)]) ++
        lexemes .content (s.dropWhile isTextChar) := by
  split
  · rename_i h
    have happ := List.takeWhile_append_dropWhile (p := isTextChar) (l := s)
    rw [h, List.nil_append] at happ
    rw [happ, List.nil_append]
  · rename_i h
    have hlt : '<' ∉ s.takeWhile isTextChar := fun hm => by
      simpa using List.all_eq_true.1 List.all_takeWhile _ hm
    rw [List.singleton_append,
      ← lexemes_text h hlt (clear_dropWhile isTextChar s), List.takeWhile_append_dropWhile]

/-- It does not matter where text is cut. -/
theorem outlineAfter_cut (a b : List Char) (e : Element) (es : List Element) (s : List Char) :
    outlineAfter (e.extend [.text a, .text b] :: es) s =
      outlineAfter (e.extend [.text (a ++ b)] :: es) s :=
  outlineAfter_alike (by simp [Element.outline, Element.extend, directText, Node.outlinesOf,
    Node.outlines]) s

/-- A character of text becomes text of the innermost open element. -/
theorem outlineAfter_char {c : Char} (hc : c ≠ '<') (e : Element) (es : List Element)
    (s : List Char) :
    outlineAfter (e :: es) (c :: s) = outlineAfter (e.extend [.text [c]] :: es) s := by
  have hne : (c :: s).takeWhile isTextChar ≠ [] := by simp [hc]
  rw [outlineAfter, lexemes_textRun (c :: s), if_neg hne, List.singleton_append, run_text,
    List.takeWhile_cons_of_pos (by simpa using hc), List.dropWhile_cons_of_pos (by simpa using hc)]
  rw [outlineAfter, lexemes_textRun s]
  split
  · rename_i h
    rw [h]
    rfl
  · rw [List.singleton_append, run_text, Element.extend_extend]
    exact (outlineAfter_cut [c] _ e es _).symm

/-- Text in which a `<` stands only in front of a quotation mark, where it starts no markup. -/
def isQuiet : List Char → Bool
  | [] => true
  | c :: s => (c != '<' || s.head? == some '"') && isQuiet s

theorem isQuiet_of_not_mem {s : List Char} (h : '<' ∉ s) : isQuiet s = true := by
  induction s with
  | nil => rfl
  | cons c s ih =>
    simp only [List.mem_cons, not_or] at h
    simp [isQuiet, Ne.symm h.1, ih h.2]

theorem isQuiet_append {s t : List Char} (hs : isQuiet s = true) (ht : isQuiet t = true) :
    isQuiet (s ++ t) = true := by
  induction s with
  | nil => exact ht
  | cons c s ih =>
    simp only [isQuiet, Bool.and_eq_true, Bool.or_eq_true, bne_iff_ne, beq_iff_eq] at hs
    simp only [List.cons_append, isQuiet, Bool.and_eq_true, Bool.or_eq_true, bne_iff_ne,
      beq_iff_eq, ih hs.2, and_true]
    rcases hs.1 with h | h
    · exact .inl h
    · exact .inr (by rw [List.head?_append, h]; rfl)

theorem isQuiet_flatMap {α : Type} {f : α → List Char} {xs : List α}
    (h : ∀ x ∈ xs, isQuiet (f x) = true) : isQuiet (xs.flatMap f) = true := by
  induction xs with
  | nil => rfl
  | cons x xs ih =>
    rw [List.flatMap_cons]
    exact isQuiet_append (h x (by simp)) (ih fun y hy => h y (by simp [hy]))

/-- **Quiet text is text of the innermost open element**, whatever stands behind it. -/
theorem outlineAfter_text {text : List Char} (ht : isQuiet text = true) (e : Element)
    (es : List Element) (s : List Char) :
    outlineAfter (e :: es) (text ++ s) = outlineAfter (e.extend [.text text] :: es) s := by
  induction text generalizing e with
  | nil => exact outlineAfter_alike (by simp [Element.outline, Element.extend, directText,
      Node.outlinesOf, Node.outlines]) s
  | cons c text ih =>
    simp only [isQuiet, Bool.and_eq_true, Bool.or_eq_true, bne_iff_ne, beq_iff_eq] at ht
    have hchar : outlineAfter (e :: es) (c :: (text ++ s)) =
        outlineAfter (e.extend [.text [c]] :: es) (text ++ s) := by
      by_cases hc : c = '<'
      · obtain ⟨t, rfl⟩ : ∃ t, text = '"' :: t := by
          cases text with
          | nil => simp [hc] at ht
          | cons d t => exact ⟨t, by simp [hc] at ht; rw [ht.1]⟩
        subst hc
        rw [outlineAfter, List.cons_append, lexemes_lone ((clear_cons _ _ _).2 (by decide))
          ((clear_cons _ _ _).2 (by decide)) ((clear_cons _ _ _).2 (by decide))
          ((clear_cons _ _ _).2 (by decide)), run_text]
        rfl
      · exact outlineAfter_char hc e es _
    rw [List.cons_append, hchar, ih ht.2, Element.extend_extend]
    exact outlineAfter_cut [c] text e es s

/-! ## Before the root -/

/-- With no element open, text is dropped. -/
theorem run_skip_text {text : List Char} (ht : '<' ∉ text) (s : List Char) :
    Builder.run {} (lexemes .content (text ++ s)) = Builder.run {} (lexemes .content s) := by
  have hdrop : ∀ t : List Char, Builder.run {} (lexemes .content t) =
      Builder.run {} (lexemes .content (t.dropWhile isTextChar)) := by
    intro t
    rw [lexemes_textRun t]
    split <;> rfl
  have hpos : ∀ c ∈ text, isTextChar c = true := by
    rintro c hc
    simp only [decide_eq_true_eq]
    rintro rfl
    exact ht hc
  rw [hdrop, List.dropWhile_append_of_pos hpos, ← hdrop]

/-- With no element open, a start tag other than the root's is dropped. -/
theorem run_skip_tag {tag : List Char} (ht : isTagName tag = true) (hroot : tag ≠ rootTag)
    (s : List Char) :
    Builder.run {} (lexemes .content ('<' :: tag ++ '>' :: s)) =
      Builder.run {} (lexemes .content s) := by
  rw [lexemes_open ht (separated_tagEnd s).tag, lexemes_tagEnd]
  simp [Builder.run, Builder.feed, Builder.start, hroot]

end SvgComponent.Markup
