import SvgComponent.Proofs.Reading

/-!
# Building a tree, lexeme by lexeme

What `Builder.run` does with the lexemes of each construct, in front of any further lexemes: a start
tag with its attributes becomes pending (`run_startTag`), and is then opened, added as a child or
taken for the finished root (`run_open`, `run_selfClose`, …); text and comments become children of
the innermost open element (`run_text`, `run_comment`); a close tag finishes it (`run_close`,
`run_close_root`).
-/

namespace SvgComponent.Markup

/-! ## Children of an open element -/

/-- The element with more children, behind the others. -/
def Element.extend (e : Element) (ns : List Node) : Element :=
  { e with children := e.children ++ ns }

@[simp] theorem Element.extend_nil (e : Element) : e.extend [] = e := by simp [Element.extend]

@[simp] theorem Element.extend_extend (e : Element) (ns ms : List Node) :
    (e.extend ns).extend ms = e.extend (ns ++ ms) := by simp [Element.extend]

theorem Element.append_eq_extend (e : Element) (n : Node) : e.append n = e.extend [n] := rfl

/-! ## Start tags -/

/-- An element that is started is no longer pending. -/
theorem Builder.pending_start {b b' : Builder} {e : Element} {leavesOpen : Bool}
    (h : b.start e leavesOpen = .more b') : b'.pending = none := by
  unfold Builder.start at h
  split at h
  · split at h
    · split at h
      · cases h
        rfl
      · cases h
    · cases h
      rfl
  · split at h <;> cases h <;> rfl

/-- The attribute as a lexeme. -/
def Attribute.lexeme (a : Attribute) : Lexeme := .attribute a.name a.value

/-- Names that are pairwise different. -/
def distinctNames (attributes : List Attribute) : Bool :=
  decide (attributes.map Attribute.name).Nodup

/-- The attributes without those whose name an earlier one has. -/
def firsts (attributes : List Attribute) : List Attribute := attributes.foldl addAttribute []

theorem hasAttribute_eq_false {name : List Char} {attributes : List Attribute} :
    hasAttribute name attributes = false ↔ name ∉ attributes.map Attribute.name := by
  simp [hasAttribute]

/-- Attributes of different names are all kept. -/
theorem foldl_addAttribute {acc attributes : List Attribute}
    (h : ((acc ++ attributes).map Attribute.name).Nodup) :
    attributes.foldl addAttribute acc = acc ++ attributes := by
  induction attributes generalizing acc with
  | nil => simp
  | cons a attributes ih =>
    have ha : hasAttribute a.name acc = false := by
      rw [hasAttribute_eq_false]
      intro hm
      simp only [List.map_append, List.map_cons, List.nodup_append, List.mem_cons] at h
      exact h.2.2 _ hm _ (.inl rfl) rfl
    rw [List.foldl_cons, addAttribute, if_neg (by simp [ha]), ih (by simpa using h)]
    simp

theorem firsts_of_distinct {attributes : List Attribute} (h : distinctNames attributes = true) :
    firsts attributes = attributes :=
  foldl_addAttribute (by simpa [distinctNames] using h)

theorem firsts_append_singleton (attributes : List Attribute) (a : Attribute) :
    firsts (attributes ++ [a]) = addAttribute (firsts attributes) a := by
  simp [firsts]

-- Every run below is unfolded lexeme by lexeme.
attribute [local simp] Builder.run Builder.feed Builder.start Builder.close closeThrough addChild

theorem run_attributes (opened : List Element) (tag : List Char) (acc attributes : List Attribute)
    (ls : List Lexeme) :
    Builder.run ⟨opened, some { tag, attributes := acc }⟩
        (attributes.map Attribute.lexeme ++ ls) =
      Builder.run ⟨opened, some { tag, attributes := attributes.foldl addAttribute acc }⟩ ls := by
  induction attributes generalizing acc with
  | nil => rfl
  | cons a attributes ih =>
    simp only [List.map_cons, List.cons_append, Attribute.lexeme, Builder.run, Builder.feed]
    exact ih _

/-- A start tag up to its end is pending, with the first attribute of each name. -/
theorem run_startTag (b : Builder) (tag : List Char) (attributes : List Attribute)
    (ls : List Lexeme) :
    b.run (.openTag tag :: (attributes.map Attribute.lexeme ++ ls)) =
      Builder.run ⟨b.opened, some { tag, attributes := firsts attributes }⟩ ls := by
  simp only [Builder.run, Builder.feed]
  exact run_attributes _ _ _ _ _

/-! ## Elements -/

theorem run_open {e : Element} (he : isVoid e.tag = false) (p : Element) (ps : List Element)
    (ls : List Lexeme) :
    Builder.run ⟨p :: ps, some e⟩ (.tagEnd :: ls) = Builder.run ⟨e :: p :: ps, none⟩ ls := by
  simp [he]

theorem run_void {e : Element} (he : isVoid e.tag = true) (p : Element) (ps : List Element)
    (ls : List Lexeme) :
    Builder.run ⟨p :: ps, some e⟩ (.tagEnd :: ls) =
      Builder.run ⟨p.extend [e.node] :: ps, none⟩ ls := by
  simp [he, Element.append_eq_extend]

theorem run_selfClose (e p : Element) (ps : List Element) (ls : List Lexeme) :
    Builder.run ⟨p :: ps, some e⟩ (.selfClose :: ls) =
      Builder.run ⟨p.extend [e.node] :: ps, none⟩ ls := by
  simp [Element.append_eq_extend]

theorem run_close (e p : Element) (ps : List Element) (ls : List Lexeme) :
    Builder.run ⟨e :: p :: ps, none⟩ (.closeTag e.tag :: ls) =
      Builder.run ⟨p.extend [e.node] :: ps, none⟩ ls := by
  simp [Element.append_eq_extend]

theorem run_open_root {e : Element} (he : e.tag = rootTag) (ls : List Lexeme) :
    Builder.run ⟨[], some e⟩ (.tagEnd :: ls) = Builder.run ⟨[e], none⟩ ls := by
  have hv : isVoid rootTag = false := by decide
  simp [he, hv]

theorem run_selfClose_root {e : Element} (he : e.tag = rootTag) (ls : List Lexeme) :
    Builder.run ⟨[], some e⟩ (.selfClose :: ls) = .ok e := by
  simp [he]

theorem run_close_root (e : Element) (ls : List Lexeme) :
    Builder.run ⟨[e], none⟩ (.closeTag e.tag :: ls) = .ok e := by
  simp

/-! ## Text and comments -/

theorem run_text (text : List Char) (e : Element) (es : List Element) (ls : List Lexeme) :
    Builder.run ⟨e :: es, none⟩ (.text text :: ls) =
      Builder.run ⟨e.extend [.text text] :: es, none⟩ ls := rfl

theorem run_cdata (content : List Char) (e : Element) (es : List Element) (ls : List Lexeme) :
    Builder.run ⟨e :: es, none⟩ (.cdata content :: ls) =
      Builder.run ⟨e.extend [.text content] :: es, none⟩ ls := rfl

theorem run_comment (body : List Char) (e : Element) (es : List Element) (ls : List Lexeme) :
    Builder.run ⟨e :: es, none⟩ (.comment body :: ls) =
      Builder.run ⟨e.extend [.comment body] :: es, none⟩ ls := rfl

end SvgComponent.Markup
