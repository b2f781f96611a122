import SvgComponent.Proofs.Marks
import SvgComponent.Proofs.RoundTrip

/-!
# Trees by their marks

The marks of a text decide which tree is read from it, up to text: leaving out all other lexemes changes
nothing else (`run_marks`). Read from marks that differ from those of a tree in values only, the tree differs
from it in these values only, and in all of them (`exists_root`).

* `nodeMarks`: the marks that a tree is written with.
* `Reads`: lexemes that make the children of any open element.
-/

namespace SvgComponent.Jsx

open Text Markup

/-! ## The marks of a tree -/

/-- The marks behind the attributes of an element, given those of its children. -/
def closingMarks (tag : List Char) (children : List Node) (inner : List Lexeme) : List Lexeme :=
  if children.all isBlankNode then [.selfClose] else .tagEnd :: (inner ++ [.closeTag tag])

mutual

/-- The marks of a node. -/
def nodeMarks : Node → List Lexeme
  | .element tag attributes children =>
    .openTag tag ::
      (attributes.map Attribute.lexeme ++ closingMarks tag children (childMarks children))
  | .text _ => []
  | .comment _ => []

/-- The marks of siblings. -/
def childMarks : List Node → List Lexeme
  | [] => []
  | n :: ns => nodeMarks n ++ childMarks ns

end

theorem childMarks_textNodes {ns : List Node} (h : ns.all isTextNode = true) : childMarks ns = [] := by
  induction ns with
  | nil => rfl
  | cons n ns ih =>
    simp only [List.all_cons, Bool.and_eq_true] at h
    cases n with
    | text s => exact ih h.2
    | element | comment => cases h.1

/-! ## Reading without text -/

/-- Any two texts. -/
abbrev Any (_ _ : List Char) : Prop := True

theorem additive_any : Additive Any := ⟨trivial, fun _ _ => trivial⟩

/-- A node that is no element does not show. -/
theorem addChild_alike_left {n : Node} (hn : n.outlines = []) {es es' : List Element}
    (h : List.Forall₂ (Element.Alike Eq Any) es es') :
    List.Forall₂ (Element.Alike Eq Any) (addChild n es) es' := by
  cases h with
  | nil => exact .nil
  | @cons e e' es es' he h =>
    have hnodes : AlikeNodes Eq Any [n] [] := ⟨trivial, by simp [Node.outlinesOf, hn]; trivial⟩
    have hextend := he.extend additive_any hnodes
    rw [Element.extend_nil] at hextend
    exact .cons hextend h

/-- **Marks are all that matters** for the elements that are read. -/
theorem run_marks {b b' : Builder} (h : b.Alike Eq Any b') (ls : List Lexeme) :
    AlikeResults Eq Any (b.run ls) (b'.run (ls.filter Lexeme.isMark)) := by
  induction ls generalizing b b' with
  | nil => exact h.run additive_any .nil
  | cons l ls ih =>
    have hmark : l.isMark = true → AlikeResults Eq Any (b.run (l :: ls))
        (b'.run ((l :: ls).filter Lexeme.isMark)) := fun hl => by
      rw [List.filter_cons_of_pos hl, run_cons, run_cons]
      exact (h.feed additive_any (l.alike_refl (fun _ => rfl) fun _ => trivial)).results ih
    cases l with
    | text | cdata | comment => exact ih ⟨addChild_alike_left rfl h.1, h.2⟩
    | openTag | «attribute» | tagEnd | selfClose | closeTag => exact hmark rfl

/-! ## Reading marks -/

/-- Lexemes that make the children `ns` of any open element. -/
def Reads (ls : List Lexeme) (ns : List Node) : Prop :=
  ∀ (p : Element) (ps : List Element) (rest : List Lexeme),
    Builder.run ⟨p :: ps, none⟩ (ls ++ rest) = Builder.run ⟨p.extend ns :: ps, none⟩ rest

theorem reads_nil : Reads [] [] := fun p ps rest => by rw [List.nil_append, Element.extend_nil]

theorem Reads.append {ls ms : List Lexeme} {ns os : List Node} (hl : Reads ls ns)
    (hm : Reads ms os) : Reads (ls ++ ms) (ns ++ os) := fun p ps rest => by
  rw [List.append_assoc, hl, hm, Element.extend_extend]

/-- The lexemes of an element of the given children, with its own tags. -/
inductive ElementLexemes (tag : List Char) (as : List Attribute) : List Node → List Lexeme → Prop
  | closed : ElementLexemes tag as []
      (.openTag tag :: (as.map Attribute.lexeme ++ [.selfClose]))
  | opened {children : List Node} {inner : List Lexeme} : isVoid tag = false →
      Reads inner children → ElementLexemes tag as children
        (.openTag tag :: (as.map Attribute.lexeme ++ .tagEnd :: (inner ++ [.closeTag tag])))

section
variable {tag : List Char} {as : List Attribute} {children : List Node} {ls : List Lexeme}

theorem ElementLexemes.reads (h : ElementLexemes tag as children ls)
    (hd : distinctNames as = true) : Reads ls [.element tag as children] := by
  intro p ps rest
  cases h with
  | closed =>
    rw [List.cons_append, List.append_assoc, run_startTag, firsts_of_distinct hd]
    exact run_selfClose _ p ps rest
  | @opened children inner hv hi =>
    have hclose := run_close (Element.extend ⟨tag, as, []⟩ children) p ps rest
    rw [List.cons_append, List.append_assoc, run_startTag, firsts_of_distinct hd, List.cons_append,
      run_open hv, List.append_assoc, hi]
    exact hclose

theorem ElementLexemes.run_root (h : ElementLexemes tag as children ls)
    (hd : distinctNames as = true) (hroot : tag = rootTag) (rest : List Lexeme) :
    Builder.run {} (ls ++ rest) = .ok ⟨tag, as, children⟩ := by
  cases h with
  | closed =>
    rw [List.cons_append, List.append_assoc, run_startTag, firsts_of_distinct hd]
    exact run_selfClose_root hroot rest
  | @opened children inner hv hi =>
    have hclose := run_close_root (Element.extend ⟨tag, as, []⟩ children) rest
    rw [List.cons_append, List.append_assoc, run_startTag, firsts_of_distinct hd, List.cons_append,
      run_open_root hroot, List.append_assoc, hi]
    exact hclose

end

/-! ## Marks with other values

In this section `ls` are marks that differ from those of a tree, with more behind them, in values at most. Each
lemma tells the first part of `ls` from the rest, and what the values have to be for `ls` to have related
values. -/

theorem exists_attributes {as : List Attribute} {ls more : List Lexeme}
    (h : List.Forall₂ (Lexeme.Alike Any Any) ls (as.map Attribute.lexeme ++ more)) :
    ∃ bs rest, ls = bs.map Attribute.lexeme ++ rest ∧
      bs.map Attribute.name = as.map Attribute.name ∧
      List.Forall₂ (Lexeme.Alike Any Any) rest more ∧
      ∀ value, List.Forall₂ (Lexeme.Alike value Any) ls (as.map Attribute.lexeme ++ more) ↔
        List.Forall₂ (Attribute.Alike value) bs as ∧
          List.Forall₂ (Lexeme.Alike value Any) rest more := by
  induction as generalizing ls with
  | nil => exact ⟨[], ls, rfl, rfl, h, fun value => by simp⟩
  | cons a as ih =>
    obtain ⟨l, ls, hl, hls, rfl⟩ := List.forall₂_cons_right_iff.1 h
    obtain ⟨s, rfl⟩ : ∃ s, l = .attribute a.name s := by
      cases hl
      exact ⟨_, rfl⟩
    obtain ⟨bs, rest, rfl, hnames, hrest, hiff⟩ := ih hls
    refine ⟨⟨a.name, s⟩ :: bs, rest, rfl, by simp [hnames], hrest, fun value => ?_⟩
    have hfirst : (Lexeme.attribute a.name s).Alike value Any a.lexeme ↔
        Attribute.Alike value ⟨a.name, s⟩ a :=
      ⟨fun h => by cases h; exact ⟨rfl, by assumption⟩, fun h => .attribute h.2⟩
    rw [List.map_cons, List.cons_append, List.forall₂_cons, List.forall₂_cons, hfirst, hiff value,
      and_assoc]

/-- That siblings can be read back from marks with other values. -/
def ReadsBack (ns : List Node) : Prop :=
  ∀ ls more : List Lexeme, List.Forall₂ (Lexeme.Alike Any Any) ls (childMarks ns ++ more) →
    ∃ first ms rest, ls = first ++ rest ∧ Reads first ms ∧
      List.Forall₂ (Lexeme.Alike Any Any) rest more ∧
      ∀ value, List.Forall₂ (Lexeme.Alike value Any) ls (childMarks ns ++ more) ↔
        Outline.AllAlike value Any (Node.outlinesOf ms) (Node.outlinesOf ns) ∧
          List.Forall₂ (Lexeme.Alike value Any) rest more

/-- One element, given that its children can be read back. -/
theorem exists_element {tag : List Char} {as : List Attribute} {children : List Node}
    (hv : isVoid tag = false ∨ children = []) (hc : ReadsBack children) {ls more : List Lexeme}
    (h : List.Forall₂ (Lexeme.Alike Any Any) ls (nodeMarks (.element tag as children) ++ more)) :
    ∃ bs ms first rest, ls = first ++ rest ∧ ElementLexemes tag bs ms first ∧
      bs.map Attribute.name = as.map Attribute.name ∧
      List.Forall₂ (Lexeme.Alike Any Any) rest more ∧
      ∀ value,
        List.Forall₂ (Lexeme.Alike value Any) ls (nodeMarks (.element tag as children) ++ more) ↔
          (Element.mk tag bs ms).Alike value Any ⟨tag, as, children⟩ ∧
            List.Forall₂ (Lexeme.Alike value Any) rest more := by
  have hmarks : nodeMarks (.element tag as children) ++ more =
      .openTag tag :: (as.map Attribute.lexeme ++
        (closingMarks tag children (childMarks children) ++ more)) := by
    rw [nodeMarks, List.cons_append, List.append_assoc]
  have halike : ∀ (value : List Char → List Char → Prop) (bs : List Attribute) (ms : List Node),
      (Element.mk tag bs ms).Alike value Any ⟨tag, as, children⟩ ↔
        List.Forall₂ (Attribute.Alike value) bs as ∧
          Outline.AllAlike value Any (Node.outlinesOf ms) (Node.outlinesOf children) :=
    fun value bs ms => ⟨fun h => ⟨h.2.1, h.2.2.2⟩, fun h => ⟨rfl, h.1, trivial, h.2⟩⟩
  rw [hmarks] at h ⊢
  obtain ⟨l, ls, hl, hls, rfl⟩ := List.forall₂_cons_right_iff.1 h
  cases hl
  obtain ⟨bs, rest, rfl, hnames, hrest, hiff⟩ := exists_attributes hls
  have hopen : ∀ value, (Lexeme.openTag tag).Alike value Any (.openTag tag) := fun _ => .openTag
  -- blank content is not written, so the children are either none or read back as they are
  by_cases hb : children.all isBlankNode = true
  · have houtlines := outlinesOf_textNodes (isTextNode_of_isBlankNode hb)
    rw [closingMarks, if_pos hb] at hrest hiff ⊢
    obtain ⟨l, after, hl, hafter, rfl⟩ := List.forall₂_cons_right_iff.1 hrest
    cases hl
    refine ⟨bs, [], _, after, ?_, .closed, hnames, hafter, fun value => ?_⟩
    · simp
    · have hself : Lexeme.selfClose.Alike value Any .selfClose := .selfClose
      rw [List.forall₂_cons, hiff value, halike, houtlines, List.singleton_append,
        List.forall₂_cons]
      simp only [hopen, hself, true_and, Node.outlinesOf, Outline.AllAlike, and_true]
  · rw [Bool.not_eq_true] at hb
    have hmore : closingMarks tag children (childMarks children) ++ more =
        .tagEnd :: (childMarks children ++ (.closeTag tag :: more)) := by
      rw [closingMarks, if_neg (by simp [hb])]
      simp
    rw [hmore] at hrest hiff ⊢
    obtain ⟨l, inner, hl, hinner, rfl⟩ := List.forall₂_cons_right_iff.1 hrest
    cases hl
    obtain ⟨first, ms, rest, rfl, hreads, hrest, hchildren⟩ := hc _ _ hinner
    obtain ⟨l, after, hl, hafter, rfl⟩ := List.forall₂_cons_right_iff.1 hrest
    cases hl
    refine ⟨bs, ms, _, after, ?_, .opened (not_isVoid_of_content hv hb) hreads, hnames, hafter,
      fun value => ?_⟩
    · simp
    · have hend : Lexeme.tagEnd.Alike value Any .tagEnd := .tagEnd
      have hclose : (Lexeme.closeTag tag).Alike value Any (.closeTag tag) := .closeTag
      rw [List.forall₂_cons, hiff value, List.forall₂_cons, hchildren value, halike,
        List.forall₂_cons]
      simp only [hopen, hend, hclose, true_and, and_assoc]

theorem distinctNames_congr {as bs : List Attribute}
    (h : bs.map Attribute.name = as.map Attribute.name) : distinctNames bs = distinctNames as := by
  rw [distinctNames, distinctNames, h]

theorem readsBack : ∀ {ns : List Node}, Node.areProper ns = true → ReadsBack ns
  | [], _ => fun ls more h => ⟨[], [], ls, rfl, reads_nil, h, fun value => by
    simp [childMarks, Node.outlinesOf, Outline.AllAlike]⟩
  | .text s :: ns, hp => by
    simp only [Node.areProper, Bool.and_eq_true] at hp
    have hns : ReadsBack ns := readsBack hp.2
    exact hns
  | .comment body :: ns, hp => by
    simp only [Node.areProper, Bool.and_eq_true] at hp
    have hns : ReadsBack ns := readsBack hp.2
    exact hns
  | .element tag as children :: ns, hp => fun ls more h => by
    simp only [Node.areProper, Node.isProper, Bool.and_eq_true, properAttributes_iff,
      Bool.or_eq_true, Bool.not_eq_true', List.isEmpty_iff] at hp
    obtain ⟨⟨⟨⟨-, -, hd⟩, hv⟩, hc⟩, hp⟩ := hp
    have hmarks : childMarks (.element tag as children :: ns) ++ more =
        nodeMarks (.element tag as children) ++ (childMarks ns ++ more) := by
      rw [childMarks, List.append_assoc]
    rw [hmarks] at h ⊢
    obtain ⟨bs, cs, first, rest, rfl, hfirst, hnames, hrest, hiff⟩ := exists_element hv (readsBack hc) h
    obtain ⟨second, ms, rest, rfl, hsecond, hrest, hiff'⟩ := readsBack hp _ _ hrest
    have hreads := hfirst.reads (by rw [distinctNames_congr hnames, hd])
    refine ⟨first ++ second, .element tag bs cs :: ms, rest, by simp, hreads.append hsecond, hrest,
      fun value => ?_⟩
    rw [hiff value, hiff' value, ← and_assoc]
    rfl

/-- **The root can be read back from its marks, whatever their values**, and then it has related values if
and only if the marks do. -/
theorem exists_root {root : Element} (hroot : root.tag = rootTag) (hp : root.node.isProper = true)
    {ls : List Lexeme} (h : List.Forall₂ (Lexeme.Alike Any Any) ls (nodeMarks root.node)) :
    ∃ back, Builder.run {} ls = .ok back ∧
      ∀ value, back.Alike value Any root ↔
        List.Forall₂ (Lexeme.Alike value Any) ls (nodeMarks root.node) := by
  obtain ⟨tag, as, children⟩ := root
  simp only [Element.node, Node.isProper, Bool.and_eq_true, properAttributes_iff, Bool.or_eq_true,
    Bool.not_eq_true', List.isEmpty_iff] at hp
  obtain ⟨⟨⟨-, -, hd⟩, hv⟩, hc⟩ := hp
  rw [← List.append_nil (nodeMarks _)] at h
  obtain ⟨bs, cs, first, rest, rfl, hfirst, hnames, hrest, hiff⟩ := exists_element hv (readsBack hc) h
  obtain rfl : rest = [] := List.forall₂_nil_right_iff.1 hrest
  refine ⟨⟨tag, bs, cs⟩, hfirst.run_root (by rw [distinctNames_congr hnames, hd]) hroot [],
    fun value => ?_⟩
  have hvalue := hiff value
  simp only [List.append_nil, List.Forall₂.nil, and_true] at hvalue ⊢
  exact hvalue.symm

end SvgComponent.Jsx
