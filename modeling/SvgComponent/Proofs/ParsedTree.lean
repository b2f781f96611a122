import SvgComponent.Proofs.Rendering

/-!
# What holds of every tree that is read

Whatever the text, the tree that is read from it is rooted at `svg`, is proper (`Node.isProper`), and
has no attribute value with both kinds of quotation marks, so that every value can be written in
quotes as it is.

* `Lexeme.isSound`: what holds of a single lexeme. An attribute whose quoted value is not closed can
  fail it, but such a value extends to the end of the text, so nothing completes its start tag
  (`soundStream_lexemes`).
* `Builder.Sound`: what holds of a builder at any time; one sound lexeme keeps it (`Sound.feed`).
* `parse_sound`: what holds of the finished tree.
-/

namespace SvgComponent.Markup

open Text

/-! ## Attributes and comments anywhere in a tree -/

mutual

/-- Every attribute of every element has the property. -/
def Node.allAttributes (p : Attribute → Bool) : Node → Bool
  | .element _ attributes children => attributes.all p && Node.allAttributesOf p children
  | .text _ => true
  | .comment _ => true

/-- Every attribute of every element of the siblings has the property. -/
def Node.allAttributesOf (p : Attribute → Bool) : List Node → Bool
  | [] => true
  | n :: ns => n.allAttributes p && Node.allAttributesOf p ns

end

mutual

/-- Every comment has the property. -/
def Node.allComments (p : List Char → Bool) : Node → Bool
  | .element _ _ children => Node.allCommentsOf p children
  | .text _ => true
  | .comment body => p body

/-- Every comment of the siblings has the property. -/
def Node.allCommentsOf (p : List Char → Bool) : List Node → Bool
  | [] => true
  | n :: ns => n.allComments p && Node.allCommentsOf p ns

end

/-- A value that lacks one of the quotation marks, and so can be written between two of them. -/
def isQuotable (value : List Char) : Bool := !value.contains '"' || !value.contains '\''

/-- A tree as the reader makes it. -/
def Node.isSound (n : Node) : Bool := n.isProper && n.allAttributes (isQuotable ·.value)

theorem areProper_append (ns ms : List Node) :
    Node.areProper (ns ++ ms) = (Node.areProper ns && Node.areProper ms) := by
  induction ns with
  | nil => rfl
  | cons n ns ih => simp [Node.areProper, ih, Bool.and_assoc]

theorem allAttributesOf_append (p : Attribute → Bool) (ns ms : List Node) :
    Node.allAttributesOf p (ns ++ ms) =
      (Node.allAttributesOf p ns && Node.allAttributesOf p ms) := by
  induction ns with
  | nil => rfl
  | cons n ns ih => simp [Node.allAttributesOf, ih, Bool.and_assoc]

/-! ## Lexemes -/

/-- What holds of every lexeme but an attribute at the end of the text. -/
def Lexeme.isSound : Lexeme → Bool
  | .openTag name => isTagName name
  | .attribute name value => isAttributeName name && isQuotable value
  | .comment body => !occursIn "-->".toList body
  | _ => true

/-- Sound lexemes, perhaps with an attribute that is not behind them. -/
def SoundStream (ls : List Lexeme) : Prop :=
  ∃ good tail, ls = good ++ tail ∧ (∀ l ∈ good, l.isSound = true) ∧
    (tail = [] ∨ ∃ name value, tail = [.attribute name value])

theorem delimited_lexeme {lexeme unclosed : List Char → Option Lexeme} {opening : Nat}
    {closing s : List Char} {l : Lexeme}
    (h : (Step.delimited lexeme unclosed opening closing s).lexeme = some l) :
    (∃ body, before? closing (s.drop opening) = some body ∧ lexeme body = some l) ∨
      (before? closing (s.drop opening) = none ∧ unclosed (s.drop opening) = some l) := by
  rw [Step.delimited] at h
  split at h
  · rename_i body hb
    exact .inl ⟨body, hb, h⟩
  · rename_i hb
    exact .inr ⟨hb, h⟩

theorem isSound_markup {s : List Char} {l : Lexeme} (h : (Step.markup s).lexeme = some l) :
    l.isSound = true := by
  rw [Step.markup] at h
  split at h
  · rcases delimited_lexeme h with ⟨body, hb, hl⟩ | ⟨hb, hl⟩
    · cases hl
      rw [Lexeme.isSound, occursIn, before?_eq_none_of_before? hb (by simp)]
      rfl
    · cases hl
      rw [Lexeme.isSound, occursIn, hb]
      rfl
  split at h
  · rcases delimited_lexeme h with ⟨body, hb, hl⟩ | ⟨hb, hl⟩ <;> cases hl <;> rfl
  split at h
  · rcases delimited_lexeme h with ⟨body, hb, hl⟩ | ⟨hb, hl⟩ <;> cases hl
  split at h
  · cases h
  split at h
  · rcases delimited_lexeme h with ⟨body, hb, hl⟩ | ⟨hb, hl⟩
    · simp only [closeLexeme] at hl
      split at hl
      · cases hl
      · cases hl; rfl
    · cases hl
  split at h
  · cases h; rfl
  · rename_i hne
    cases h
    exact isTagName_tagName fun e => hne e

theorem isSound_content {c : Char} {s : List Char} {l : Lexeme}
    (h : (Step.content c s).lexeme = some l) : l.isSound = true := by
  rw [Step.content] at h
  split at h
  · exact isSound_markup h
  · cases h; rfl

theorem isQuotable_of_not_mem {q : Char} {value : List Char} (hq : isQuote q = true)
    (h : q ∉ value) : isQuotable value = true := by
  simp only [isQuote, Bool.or_eq_true, beq_iff_eq] at hq
  rcases hq with rfl | rfl <;> simp [isQuotable, h]

theorem not_isQuote_of_mem_bareValue {s : List Char} {c : Char} (h : c ∈ bareValue s) :
    isQuote c = false := by
  induction s with
  | nil => cases h
  | cons d s ih =>
    rw [bareValue] at h
    split at h
    · cases h
    · rename_i hd
      simp only [Bool.or_eq_true, not_or, Bool.not_eq_true] at hd
      rcases List.mem_cons.1 h with rfl | h
      · exact hd.1.1.2
      · exact ih h

/-- The value of an attribute can be written in quotes, or it is all that is left. -/
theorem isQuotable_valueAfterEquals (s : List Char) :
    isQuotable (valueAfterEquals s).1 = true ∨ s.length ≤ (valueAfterEquals s).2 := by
  rw [valueAfterEquals]
  split
  · exact .inl rfl
  · rename_i q body _
    split
    · rename_i hq
      split
      · rename_i value hv
        refine .inl (isQuotable_of_not_mem hq fun hm => ?_)
        exact before?_char_eq_none.1 (before?_eq_none_of_before? hv (by simp)) hm
      · exact .inr (Nat.le_refl _)
    · refine .inl ?_
      have h : '"' ∉ bareValue (q :: body) := fun hm =>
        absurd (not_isQuote_of_mem_bareValue hm) (by decide)
      exact isQuotable_of_not_mem (by decide) h

theorem isQuotable_attributeValue (s : List Char) :
    isQuotable (attributeValue s).1 = true ∨ s.length ≤ (attributeValue s).2 := by
  rw [attributeValue]
  split
  · rename_i rest hs
    have hl := congrArg List.length (List.takeWhile_append_dropWhile (p := isBlank) (l := s))
    rw [hs] at hl
    simp only [List.length_append, List.length_cons] at hl
    rcases isQuotable_valueAfterEquals rest with h | h
    · exact .inl h
    · refine .inr ?_
      show s.length ≤ (s.takeWhile isBlank).length + 1 + (valueAfterEquals rest).2
      omega
  · exact .inl rfl

theorem isSound_tag {c : Char} {s : List Char} {l : Lexeme}
    (h : (Step.tag c s).lexeme = some l) :
    l.isSound = true ∨
      ((∃ name value, l = .attribute name value) ∧ s.length ≤ (Step.tag c s).extra) := by
  by_cases hc : isAttributeChar c = true
  · rw [Step.tag_attribute hc] at h ⊢
    cases h
    have hname : isAttributeName (c :: s.takeWhile isAttributeChar) = true := by
      simp [isAttributeName, hc]
    have hl := congrArg List.length
      (List.takeWhile_append_dropWhile (p := isAttributeChar) (l := s))
    rw [List.length_append] at hl
    rcases isQuotable_attributeValue (s.dropWhile isAttributeChar) with hq | hq
    · exact .inl (by simp [Lexeme.isSound, hname, hq])
    · refine .inr ⟨⟨_, _, rfl⟩, ?_⟩
      show s.length ≤ (s.takeWhile isAttributeChar).length +
        (attributeValue (s.dropWhile isAttributeChar)).2
      omega
  · simp only [Step.tag, hc, if_false, Bool.false_eq_true] at h
    split at h
    · cases h
    split at h
    · cases h; exact .inl rfl
    split at h
    · cases h; exact .inl rfl
    · cases h

/-- **All lexemes are sound**, but for an attribute at the very end. -/
theorem soundStream_lexemes (mode : Mode) (s : List Char) : SoundStream (lexemes mode s) := by
  induction mode, s using steps_induction with
  | nil mode => exact ⟨[], [], by simp, by simp, .inl rfl⟩
  | cons mode c s ih =>
    obtain ⟨good, tail, he, hg, ht⟩ := ih
    have hstep : ∀ l, (Step.at mode c s).lexeme = some l → l.isSound = true ∨
        ((∃ name value, l = .attribute name value) ∧ s.length ≤ (Step.at mode c s).extra) := by
      intro l hl
      cases mode with
      | content => exact .inl (isSound_content hl)
      | tag => exact isSound_tag hl
    rw [lexemes_cons]
    cases hl : (Step.at mode c s).lexeme with
    | none => exact ⟨good, tail, by simp [he], hg, ht⟩
    | some l =>
      rcases hstep l hl with hs | ⟨⟨name, value, rfl⟩, hlen⟩
      · refine ⟨l :: good, tail, by simp [he], fun k hk => ?_, ht⟩
        rcases List.mem_cons.1 hk with rfl | hk
        · exact hs
        · exact hg k hk
      · refine ⟨[], [.attribute name value], ?_, by simp, .inr ⟨name, value, rfl⟩⟩
        simp [List.drop_eq_nil_of_le hlen]

/-! ## Builders -/

theorem isSound_element {tag : List Char} {attributes : List Attribute} {children : List Node} :
    (Node.element tag attributes children).isSound = true ↔
      isTagName tag = true ∧ properAttributes attributes = true ∧
        attributes.all (isQuotable ·.value) = true ∧ (isVoid tag = false ∨ children = []) ∧
        Node.areProper children = true ∧
        Node.allAttributesOf (isQuotable ·.value) children = true := by
  simp only [Node.isSound, Node.isProper, Node.allAttributes, Bool.and_eq_true, Bool.or_eq_true,
    Bool.not_eq_true', List.isEmpty_iff]
  grind

theorem isSound_append {e : Element} {n : Node} (he : e.node.isSound = true)
    (hv : isVoid e.tag = false) (hn : n.isSound = true) : (e.append n).node.isSound = true := by
  simp only [Element.node, isSound_element] at he
  simp only [Node.isSound, Bool.and_eq_true] at hn
  simp only [Element.append, Element.node, isSound_element, areProper_append,
    allAttributesOf_append, Node.areProper, Node.allAttributesOf, Bool.and_true, Bool.and_eq_true]
  exact ⟨he.1, he.2.1, he.2.2.1, .inl hv, ⟨he.2.2.2.2.1, hn.1⟩, he.2.2.2.2.2, hn.2⟩

theorem distinctNames_addAttribute {attributes : List Attribute} (a : Attribute)
    (h : distinctNames attributes = true) : distinctNames (addAttribute attributes a) = true := by
  rw [addAttribute]
  split
  · exact h
  · rename_i ha
    have ha := hasAttribute_eq_false.1 (by simpa using ha)
    simp only [distinctNames, decide_eq_true_eq] at h ⊢
    rw [List.map_append, List.map_singleton, List.nodup_append]
    refine ⟨h, by simp, fun x hx y hy => ?_⟩
    simp only [List.mem_singleton] at hy
    rintro rfl
    exact ha (hy ▸ hx)

theorem all_addAttribute {p : Attribute → Bool} {attributes : List Attribute} {a : Attribute}
    (h : attributes.all p = true) (ha : p a = true) : (addAttribute attributes a).all p = true := by
  rw [addAttribute]
  split
  · exact h
  · simp_all

/-- What holds of a builder at any time. -/
structure Builder.Sound (b : Builder) : Prop where
  opened : ∀ e ∈ b.opened, e.node.isSound = true ∧ isVoid e.tag = false
  root : ∀ tag, (b.opened.map Element.tag).getLast? = some tag → tag = rootTag
  pending : ∀ e, b.pending = some e → e.node.isSound = true ∧ e.children = []

/-- What holds of a state after a lexeme. -/
def Progress.Sound : Progress → Prop
  | .more b => b.Sound
  | .done root => root.tag = rootTag ∧ root.node.isSound = true

theorem addChild_tags (n : Node) (es : List Element) :
    (addChild n es).map Element.tag = es.map Element.tag := by
  cases es <;> rfl

theorem addChild_sound {n : Node} {es : List Element} (hn : n.isSound = true)
    (h : ∀ e ∈ es, e.node.isSound = true ∧ isVoid e.tag = false) :
    ∀ e ∈ addChild n es, e.node.isSound = true ∧ isVoid e.tag = false := by
  cases es with
  | nil => simp [addChild]
  | cons e es =>
    obtain ⟨he, hv⟩ := h e (by simp)
    intro x hx
    rcases List.mem_cons.1 hx with rfl | hx
    · exact ⟨isSound_append he hv hn, hv⟩
    · exact h x (by simp [hx])

theorem closeThrough_sound {name : List Char} {e : Element} {ps : List Element}
    (h : ∀ x ∈ e :: ps, x.node.isSound = true ∧ isVoid x.tag = false) {e' : Element}
    {rest : List Element} (hc : closeThrough name e ps = some (e', rest)) :
    (∀ x ∈ e' :: rest, x.node.isSound = true ∧ isVoid x.tag = false) ∧
      ∃ inner, (e :: ps).map Element.tag = inner ++ (e' :: rest).map Element.tag := by
  induction ps generalizing e with
  | nil =>
    rw [closeThrough] at hc
    split at hc
    · cases hc
      exact ⟨h, [], rfl⟩
    · cases hc
  | cons p ps ih =>
    rw [closeThrough] at hc
    split at hc
    · cases hc
      exact ⟨h, [], rfl⟩
    · obtain ⟨hp, hv⟩ := h p (by simp)
      have hall : ∀ x ∈ p.append e.node :: ps, x.node.isSound = true ∧ isVoid x.tag = false := by
        intro x hx
        rcases List.mem_cons.1 hx with rfl | hx
        · exact ⟨isSound_append hp hv (h e (by simp)).1, hv⟩
        · exact h x (by simp [hx])
      obtain ⟨hs, inner, hi⟩ := ih hall hc
      exact ⟨hs, e.tag :: inner, by rw [List.map_cons, List.cons_append, ← hi]; rfl⟩

theorem Builder.Sound.start {b : Builder} (h : b.Sound) {e : Element}
    (he : e.node.isSound = true) {leavesOpen : Bool} (hl : leavesOpen = true → isVoid e.tag = false) :
    (b.start e leavesOpen).Sound := by
  obtain ⟨opened, pending⟩ := b
  cases opened with
  | nil =>
    simp only [Builder.start]
    split
    · rename_i ht
      split
      · rename_i ho
        refine ⟨fun x hx => ?_, fun tag htag => ?_, fun x hx => by cases hx⟩
        · rw [List.mem_singleton] at hx
          exact hx ▸ ⟨he, hl ho⟩
        · simpa [ht] using htag.symm
      · exact ⟨ht, he⟩
    · exact ⟨by simp, by simp, fun x hx => by cases hx⟩
  | cons p ps =>
    simp only [Builder.start]
    split
    · rename_i ho
      refine ⟨fun x hx => ?_, fun tag htag => h.root tag ?_, fun x hx => by cases hx⟩
      · rcases List.mem_cons.1 hx with rfl | hx
        · exact ⟨he, hl ho⟩
        · exact h.opened x hx
      · simpa using htag
    · refine ⟨addChild_sound he h.opened, fun tag htag => h.root tag ?_, fun x hx => by cases hx⟩
      rwa [addChild_tags] at htag

theorem Builder.Sound.close {b : Builder} (h : b.Sound) (name : List Char) :
    (b.close name).Sound := by
  obtain ⟨opened, pending⟩ := b
  cases opened with
  | nil => exact h
  | cons e parents =>
    simp only [Builder.close]
    split
    · exact h
    · rename_i root hc
      obtain ⟨hs, inner, hi⟩ := closeThrough_sound h.opened hc
      refine ⟨h.root root.tag ?_, (hs root (by simp)).1⟩
      rw [hi]
      simp
    · rename_i closed rest hne hc
      obtain ⟨hs, inner, hi⟩ := closeThrough_sound h.opened hc
      have hrest : ∀ x ∈ rest, x.node.isSound = true ∧ isVoid x.tag = false := fun x hx =>
        hs x (by simp [hx])
      refine ⟨addChild_sound (hs closed (by simp)).1 hrest, fun tag htag => h.root tag ?_,
        h.pending⟩
      rw [addChild_tags] at htag
      rw [hi, List.map_cons, List.getLast?_append, List.getLast?_cons, htag]
      rfl

/-- One sound lexeme keeps a builder sound. -/
theorem Builder.Sound.feed {b : Builder} (h : b.Sound) {l : Lexeme} (hl : l.isSound = true) :
    (b.feed l).Sound := by
  have htext : ∀ content, Builder.Sound { b with opened := addChild (.text content) b.opened } :=
    fun content => ⟨addChild_sound rfl h.opened,
      fun tag htag => h.root tag (by rwa [addChild_tags] at htag), h.pending⟩
  cases l with
  | openTag name =>
    refine ⟨h.opened, h.root, fun e he => ?_⟩
    cases he
    exact ⟨isSound_element.2 ⟨hl, rfl, rfl, .inr rfl, rfl, rfl⟩, rfl⟩
  | «attribute» name value =>
    simp only [Lexeme.isSound, Bool.and_eq_true] at hl
    refine ⟨h.opened, h.root, fun e he => ?_⟩
    obtain ⟨e, hp, rfl⟩ := Option.map_eq_some_iff.1 he
    obtain ⟨hs, hc⟩ := h.pending e hp
    simp only [Element.node, isSound_element, properAttributes, Bool.and_eq_true] at hs
    refine ⟨isSound_element.2 ⟨hs.1, ?_, all_addAttribute hs.2.2.1 hl.2, .inr hc, hs.2.2.2.2⟩, hc⟩
    rw [properAttributes, all_addAttribute hs.2.1.1 hl.1, distinctNames_addAttribute _ hs.2.1.2]
    rfl
  | tagEnd =>
    simp only [Builder.feed]
    split
    · exact h
    · rename_i e hp
      exact h.start (h.pending e hp).1 (by simp)
  | selfClose =>
    simp only [Builder.feed]
    split
    · exact h
    · rename_i e hp
      exact h.start (h.pending e hp).1 (by simp)
  | closeTag name => exact h.close name
  | text content => exact htext content
  | cdata content => exact htext content
  | comment body =>
    have hb : (Node.comment body).isSound = true := by
      simpa [Node.isSound, Node.isProper, Node.allAttributes, Lexeme.isSound] using hl
    exact ⟨addChild_sound hb h.opened,
      fun tag htag => h.root tag (by rwa [addChild_tags] at htag), h.pending⟩

/-- A run of lexemes that are sound up to its end gives a sound root, or none. -/
theorem Builder.Sound.run {b : Builder} (h : b.Sound) {ls : List Lexeme} (hls : SoundStream ls)
    {root : Element} (hr : b.run ls = .ok root) :
    root.tag = rootTag ∧ root.node.isSound = true := by
  obtain ⟨good, tail, rfl, hg, ht⟩ := hls
  induction good generalizing b with
  | nil =>
    -- An attribute at the end completes no start tag, so the run fails.
    rcases ht with rfl | ⟨name, value, rfl⟩ <;> cases hr
  | cons l good ih =>
    have hf := h.feed (hg l (by simp))
    simp only [List.cons_append, Builder.run] at hr
    split at hr
    · rename_i b' hb'
      rw [hb'] at hf
      exact ih hf hr fun k hk => hg k (by simp [hk])
    · rename_i r hr'
      cases hr
      rw [hr'] at hf
      exact hf

/-- **A tree that is read** is rooted at `svg` and sound. -/
theorem parse_sound {s : List Char} {root : Element} (h : parse s = .ok root) :
    root.tag = rootTag ∧ root.node.isSound = true := by
  have hb : Builder.Sound {} := ⟨by simp, by simp, by simp⟩
  exact hb.run (soundStream_lexemes .content s) h

end SvgComponent.Markup
