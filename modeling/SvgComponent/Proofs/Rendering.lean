import SvgComponent.Proofs.Building

/-!
# Reading back what is written

A tree can be written as markup in many ways: the blanks, the quotes around a value, the form of an
empty element and the form of text are free. `Rendering` says which texts are renderings of a list of
sibling nodes, and `parse_rendering` that each of them is read as the tree it was written from.

* `Node.isProper`: the trees that have renderings at all.
* `AttributesRendering`, `Rendering`: the renderings, with all their freedom.
* `Separated`: the texts that cannot continue a name or a value in a start tag; what follows an
  attribute in a rendering is such a text.
* `run_rendering`: a rendering adds exactly its nodes to the innermost open element.
-/

namespace SvgComponent.Markup

open Text

/-! ## Proper trees -/

/-- Attributes whose names can be written and are pairwise different. -/
def properAttributes (attributes : List Attribute) : Bool :=
  attributes.all (fun a => isAttributeName a.name) && distinctNames attributes

mutual

/-- A tree that markup can be written for: its names are names, no element has two attributes of one
name, void elements have no children and no comment holds the mark that would end it. -/
def Node.isProper : Node → Bool
  | .element tag attributes children =>
    isTagName tag && properAttributes attributes && (!isVoid tag || children.isEmpty) &&
      Node.areProper children
  | .text _ => true
  | .comment body => !occursIn "-->".toList body

/-- Siblings that are all proper. -/
def Node.areProper : List Node → Bool
  | [] => true
  | n :: ns => n.isProper && Node.areProper ns

end

theorem properAttributes_iff {attributes : List Attribute} :
    properAttributes attributes = true ↔
      (∀ a ∈ attributes, isAttributeName a.name = true) ∧ distinctNames attributes = true := by
  simp [properAttributes]

/-! ## Renderings -/

/-- What stands behind the name of an attribute of the given value: nothing if the value is empty,
or a `=`, perhaps between blanks, and the value in quotes or, if nothing in it would end it, without. -/
inductive ValueRendering : List Char → List Char → Prop
  | none : ValueRendering [] []
  | quoted {before after value : List Char} {q : Char} (hb : isBlankText before = true)
      (ha : isBlankText after = true) (hq : isQuote q = true) (hv : q ∉ value) :
      ValueRendering value (before ++ '=' :: (after ++ q :: value ++ [q]))
  | bare {before after value : List Char} (hb : isBlankText before = true)
      (ha : isBlankText after = true) (hne : value ≠ []) (hv : ∀ c ∈ value, isBareChar c = true) :
      ValueRendering value (before ++ '=' :: (after ++ value))

/-- The attributes of a start tag, each behind at least one blank. -/
inductive AttributesRendering : List Attribute → List Char → Prop
  | nil : AttributesRendering [] []
  | cons {a : Attribute} {as : List Attribute} {gap w s : List Char} (hne : gap ≠ [])
      (hg : isBlankText gap = true) (hv : ValueRendering a.value w)
      (has : AttributesRendering as s) : AttributesRendering (a :: as) (gap ++ a.name ++ w ++ s)

/-- The renderings of siblings. `afterText` says that plain text stands right before them, so that
they cannot start with plain text. -/
inductive Rendering : Bool → List Node → List Char → Prop
  | nil {afterText : Bool} : Rendering afterText [] []
  | plain {text s : List Char} {ns : List Node} (hne : text ≠ []) (ht : '<' ∉ text)
      (hs : Rendering true ns s) : Rendering false (.text text :: ns) (text ++ s)
  | cdata {afterText : Bool} {content s : List Char} {ns : List Node}
      (hc : occursIn "]]>".toList content = false) (hs : Rendering false ns s) :
      Rendering afterText (.text content :: ns)
        ("<![CDATA[".toList ++ content ++ "]]>".toList ++ s)
  | comment {afterText : Bool} {body s : List Char} {ns : List Node} (hs : Rendering false ns s) :
      Rendering afterText (.comment body :: ns) ("<!--".toList ++ body ++ "-->".toList ++ s)
  | void {afterText : Bool} {tag a gap closing s : List Char} {as : List Attribute} {ns : List Node}
      (hv : isVoid tag = true) (ha : AttributesRendering as a) (hg : isBlankText gap = true)
      (hc : closing = ['>'] ∨ closing = ['/', '>']) (hs : Rendering false ns s) :
      Rendering afterText (.element tag as [] :: ns) ('<' :: tag ++ (a ++ (gap ++ (closing ++ s))))
  | empty {afterText : Bool} {tag a gap s : List Char} {as : List Attribute} {ns : List Node}
      (hv : isVoid tag = false) (ha : AttributesRendering as a) (hg : isBlankText gap = true)
      (hs : Rendering false ns s) :
      Rendering afterText (.element tag as [] :: ns)
        ('<' :: tag ++ (a ++ (gap ++ '/' :: '>' :: s)))
  | element {afterText : Bool} {tag a gap gap' c s : List Char} {as : List Attribute}
      {children ns : List Node} (hv : isVoid tag = false) (ha : AttributesRendering as a)
      (hg : isBlankText gap = true) (hc : Rendering false children c)
      (hg' : isBlankText gap' = true) (hs : Rendering false ns s) :
      Rendering afterText (.element tag as children :: ns)
        ('<' :: tag ++ (a ++ (gap ++ '>' :: (c ++ ('<' :: '/' :: tag ++ gap' ++ '>' :: s)))))

theorem isBlankText_iff {s : List Char} :
    isBlankText s = true ↔ ∀ c ∈ s, isBlank c = true := by simp [isBlankText]

/-! ## Start tags -/

/-- Text that cannot continue the name or the value in front of it in a start tag. -/
structure Separated (s : List Char) : Prop where
  tag : Clear isNameChar s
  name : Clear isAttributeChar s
  value : bareValue s = []
  equals : Clear (· == '=') (s.dropWhile isBlank)

theorem separated_tagEnd (rest : List Char) : Separated ('>' :: rest) where
  tag := (clear_cons _ _ _).2 (by decide)
  name := (clear_cons _ _ _).2 (by decide)
  value := by simp [bareValue]
  equals := by simp [show isBlank '>' = false by decide]

theorem separated_selfClose (rest : List Char) : Separated ('/' :: '>' :: rest) where
  tag := (clear_cons _ _ _).2 (by decide)
  name := (clear_cons _ _ _).2 (by decide)
  value := by simp [bareValue]
  equals := by simp [show isBlank '/' = false by decide]

/-- Blanks separate, whatever follows them but a `=`. -/
theorem separated_blanks {gap s : List Char} (hne : gap ≠ []) (hg : ∀ c ∈ gap, isBlank c = true)
    (hs : Clear (· == '=') (s.dropWhile isBlank)) : Separated (gap ++ s) := by
  cases gap with
  | nil => exact absurd rfl hne
  | cons c gap =>
    have hc := hg c (by simp)
    refine ⟨?_, ?_, ?_, ?_⟩
    · simpa using not_isNameChar_of_isBlank hc
    · simp [isAttributeChar, hc]
    · simp [bareValue, hc]
    · rwa [List.dropWhile_append_of_pos hg]

theorem Separated.blanks {gap s : List Char} (hg : ∀ c ∈ gap, isBlank c = true)
    (hs : Separated s) : Separated (gap ++ s) := by
  by_cases hne : gap = []
  · simpa [hne] using hs
  · exact separated_blanks hne hg hs.equals

/-- A name is neither blank nor a `=`, so blanks in front of it separate. -/
theorem clear_equals_name {name : List Char} (hn : isAttributeName name = true) (s : List Char) :
    Clear (· == '=') ((name ++ s).dropWhile isBlank) := by
  cases name with
  | nil => cases hn
  | cons c name =>
    simp only [isAttributeName, List.isEmpty_cons, Bool.not_false, Bool.true_and, List.all_cons,
      Bool.and_eq_true] at hn
    obtain ⟨hb, he, -⟩ := isAttributeChar_iff.1 hn.1
    simp [hb, he]

theorem separated_attributes {as : List Attribute} {a rest : List Char}
    (h : AttributesRendering as a) (hn : ∀ b ∈ as, isAttributeName b.name = true)
    (hr : Separated rest) : Separated (a ++ rest) := by
  cases h with
  | nil => exact hr
  | cons hne hg hv has =>
    simp only [List.append_assoc]
    exact separated_blanks hne (isBlankText_iff.1 hg) (clear_equals_name (hn _ (by simp)) _)

theorem lexemes_value {name value w rest : List Char} (h : ValueRendering value w)
    (hn : isAttributeName name = true) (hr : Separated rest) :
    lexemes .tag (name ++ (w ++ rest)) = .attribute name value :: lexemes .tag rest := by
  cases h with
  | none => exact lexemes_valueless hn hr.name hr.equals
  | quoted hb ha hq hv =>
    rw [← lexemes_quoted hn (isBlankText_iff.1 hb) (isBlankText_iff.1 ha) hq hv rest]
    simp
  | bare hb ha hne hv =>
    rw [← lexemes_bare hn (isBlankText_iff.1 hb) (isBlankText_iff.1 ha) hne hv hr.value]
    simp

theorem lexemes_attributes {as : List Attribute} {a rest : List Char}
    (h : AttributesRendering as a) (hn : ∀ b ∈ as, isAttributeName b.name = true)
    (hr : Separated rest) :
    lexemes .tag (a ++ rest) = as.map Attribute.lexeme ++ lexemes .tag rest := by
  induction h with
  | nil => rfl
  | @cons b as gap w s hne hg hv has ih =>
    have hns : ∀ b ∈ as, isAttributeName b.name = true := fun b hb => hn b (by simp [hb])
    have hsep : Separated (s ++ rest) := separated_attributes has hns hr
    simp only [List.append_assoc]
    rw [lexemes_blanks (isBlankText_iff.1 hg), lexemes_value hv (hn b (by simp)) hsep, ih hns]
    rfl

/-- A start tag up to its end, with blanks in front of the end. -/
theorem run_tag (b : Builder) {tag a gap rest : List Char} {as : List Attribute}
    (ht : isTagName tag = true) (has : ∀ x ∈ as, isAttributeName x.name = true)
    (h : AttributesRendering as a) (hg : isBlankText gap = true) (hr : Separated rest) :
    b.run (lexemes .content ('<' :: tag ++ (a ++ (gap ++ rest)))) =
      Builder.run ⟨b.opened, some { tag, attributes := firsts as }⟩ (lexemes .tag rest) := by
  have hgap : Separated (gap ++ rest) := hr.blanks (isBlankText_iff.1 hg)
  rw [lexemes_open ht (separated_attributes h has hgap).tag, lexemes_attributes h has hgap,
    run_startTag, lexemes_blanks (isBlankText_iff.1 hg)]

section
variable {tag a gap : List Char} {as : List Attribute} (ht : isTagName tag = true)
  (has : ∀ x ∈ as, isAttributeName x.name = true) (h : AttributesRendering as a)
  (hg : isBlankText gap = true)
include ht has h hg

theorem run_tag_open (hv : isVoid tag = false) (e : Element) (es : List Element)
    (rest : List Char) :
    Builder.run ⟨e :: es, none⟩ (lexemes .content ('<' :: tag ++ (a ++ (gap ++ '>' :: rest)))) =
      Builder.run ⟨{ tag, attributes := firsts as } :: e :: es, none⟩ (lexemes .content rest) := by
  rw [run_tag _ ht has h hg (separated_tagEnd _), lexemes_tagEnd]
  exact run_open hv e es _

theorem run_tag_void (hv : isVoid tag = true) (e : Element) (es : List Element)
    (rest : List Char) :
    Builder.run ⟨e :: es, none⟩ (lexemes .content ('<' :: tag ++ (a ++ (gap ++ '>' :: rest)))) =
      Builder.run ⟨e.extend [.element tag (firsts as) []] :: es, none⟩
        (lexemes .content rest) := by
  rw [run_tag _ ht has h hg (separated_tagEnd _), lexemes_tagEnd]
  exact run_void hv e es _

theorem run_tag_selfClose (e : Element) (es : List Element) (rest : List Char) :
    Builder.run ⟨e :: es, none⟩
        (lexemes .content ('<' :: tag ++ (a ++ (gap ++ '/' :: '>' :: rest)))) =
      Builder.run ⟨e.extend [.element tag (firsts as) []] :: es, none⟩
        (lexemes .content rest) := by
  rw [run_tag _ ht has h hg (separated_selfClose _), lexemes_selfClose]
  exact run_selfClose _ e es _

theorem run_tag_open_root (hroot : tag = rootTag) (rest : List Char) :
    Builder.run {} (lexemes .content ('<' :: tag ++ (a ++ (gap ++ '>' :: rest)))) =
      Builder.run ⟨[{ tag, attributes := firsts as }], none⟩ (lexemes .content rest) := by
  rw [run_tag _ ht has h hg (separated_tagEnd _), lexemes_tagEnd]
  exact run_open_root hroot _

theorem run_tag_selfClose_root (hroot : tag = rootTag) (rest : List Char) :
    Builder.run {} (lexemes .content ('<' :: tag ++ (a ++ (gap ++ '/' :: '>' :: rest)))) =
      .ok { tag, attributes := firsts as } := by
  rw [run_tag _ ht has h hg (separated_selfClose _), lexemes_selfClose]
  exact run_selfClose_root hroot _

end

theorem run_endTag {tag gap : List Char} (ht : isTagName tag = true)
    (hg : isBlankText gap = true) {e : Element} (he : e.tag = tag) (p : Element)
    (ps : List Element) (rest : List Char) :
    Builder.run ⟨e :: p :: ps, none⟩ (lexemes .content ('<' :: '/' :: tag ++ gap ++ '>' :: rest)) =
      Builder.run ⟨p.extend [e.node] :: ps, none⟩ (lexemes .content rest) := by
  rw [lexemes_close ht (isBlankText_iff.1 hg), ← he]
  exact run_close e p ps _

theorem run_endTag_root {tag gap : List Char} (ht : isTagName tag = true)
    (hg : isBlankText gap = true) {e : Element} (he : e.tag = tag) (rest : List Char) :
    Builder.run ⟨[e], none⟩ (lexemes .content ('<' :: '/' :: tag ++ gap ++ '>' :: rest)) =
      .ok e := by
  rw [lexemes_close ht (isBlankText_iff.1 hg), ← he]
  exact run_close_root e _

/-! ## Siblings -/

/-- Behind plain text a rendering ends or goes on with markup. -/
theorem clear_of_rendering {ns : List Node} {s rest : List Char} (h : Rendering true ns s)
    (hr : Clear isTextChar rest) : Clear isTextChar (s ++ rest) := by
  cases h with
  | nil => exact hr
  | cdata => exact (clear_cons _ _ _).2 (by decide)
  | comment => exact (clear_cons _ _ _).2 (by decide)
  | void => exact (clear_cons _ _ _).2 (by decide)
  | empty => exact (clear_cons _ _ _).2 (by decide)
  | element => exact (clear_cons _ _ _).2 (by decide)

/-- A rendering adds exactly its nodes to the innermost open element. -/
theorem run_rendering {afterText : Bool} {ns : List Node} {s : List Char}
    (h : Rendering afterText ns s) (hp : Node.areProper ns = true) (e : Element)
    (es : List Element) (rest : List Char) (hr : Clear isTextChar rest) :
    Builder.run ⟨e :: es, none⟩ (lexemes .content (s ++ rest)) =
      Builder.run ⟨e.extend ns :: es, none⟩ (lexemes .content rest) := by
  -- The induction is on the rendering; the open elements and the text behind stay arbitrary, since
  -- the children of an element are read with that element open and its end tag behind them.
  induction h generalizing e es rest with
  | nil => simp
  | plain hne ht hs ih =>
    simp only [Node.areProper, Node.isProper, Bool.true_and] at hp
    rw [List.append_assoc, lexemes_text hne ht (clear_of_rendering hs hr), run_text,
      ih hp _ _ _ hr]
    simp
  | cdata hc hs ih =>
    simp only [Node.areProper, Node.isProper, Bool.true_and] at hp
    rw [List.append_assoc, lexemes_cdata hc, run_cdata, ih hp _ _ _ hr]
    simp
  | comment hs ih =>
    simp only [Node.areProper, Node.isProper, Bool.and_eq_true, Bool.not_eq_true'] at hp
    rw [List.append_assoc, lexemes_comment hp.1, run_comment, ih hp.2 _ _ _ hr]
    simp
  | @void _ tag a gap closing s as ns hv ha hg hc hs ih =>
    simp only [Node.areProper, Node.isProper, Bool.and_eq_true, properAttributes_iff] at hp
    obtain ⟨⟨⟨⟨ht, has, hd⟩, -⟩, -⟩, hns⟩ := hp
    simp only [List.append_assoc]
    rcases hc with rfl | rfl
    · rw [List.singleton_append, run_tag_void ht has ha hg hv, firsts_of_distinct hd,
        ih hns _ _ _ hr]
      simp
    · rw [show ['/', '>'] ++ (s ++ rest) = '/' :: '>' :: (s ++ rest) from rfl,
        run_tag_selfClose ht has ha hg, firsts_of_distinct hd, ih hns _ _ _ hr]
      simp
  | @empty _ tag a gap s as ns hv ha hg hs ih =>
    simp only [Node.areProper, Node.isProper, Bool.and_eq_true, properAttributes_iff] at hp
    obtain ⟨⟨⟨⟨ht, has, hd⟩, -⟩, -⟩, hns⟩ := hp
    have hself := run_tag_selfClose ht has ha hg e es (s ++ rest)
    simp only [List.append_assoc, List.cons_append] at hself ⊢
    rw [hself, firsts_of_distinct hd, ih hns _ _ _ hr]
    simp
  | @element _ tag a gap gap' c s as children ns hv ha hg hc hg' hs ihc ih =>
    simp only [Node.areProper, Node.isProper, Bool.and_eq_true, properAttributes_iff] at hp
    obtain ⟨⟨⟨⟨ht, has, hd⟩, -⟩, hcs⟩, hns⟩ := hp
    have hopen := run_tag_open ht has ha hg hv e es
      (c ++ ('<' :: '/' :: tag ++ gap' ++ '>' :: (s ++ rest)))
    have hchildren := ihc hcs ⟨tag, as, []⟩ (e :: es)
      ('<' :: '/' :: tag ++ gap' ++ '>' :: (s ++ rest)) ((clear_cons _ _ _).2 (by decide))
    have hend := run_endTag ht hg' (e := Element.extend ⟨tag, as, []⟩ children) rfl e es
      (s ++ rest)
    rw [firsts_of_distinct hd] at hopen
    simp only [List.append_assoc, List.cons_append] at hopen hchildren hend ⊢
    rw [hopen, hchildren, hend, ih hns _ _ _ hr]
    simp [Element.node, Element.extend]

/-- **Every rendering of a proper tree is read as that tree.** -/
theorem parse_rendering {root : Element} {s : List Char} (hroot : root.tag = rootTag)
    (hp : root.node.isProper = true) (h : Rendering false [root.node] s) : parse s = .ok root := by
  obtain ⟨tag, as, children⟩ := root
  simp only [Element.node, Node.isProper, Bool.and_eq_true, properAttributes_iff] at hroot hp h
  obtain ⟨⟨⟨ht, has, hd⟩, -⟩, hcs⟩ := hp
  rw [parse_eq_build, build]
  cases h with
  | void hv => rw [hroot] at hv; exact absurd hv (by decide)
  | empty hv ha hg hs =>
    rw [run_tag_selfClose_root ht has ha hg hroot, firsts_of_distinct hd]
  | @element _ _ a gap gap' c s _ _ _ hv ha hg hc hg' hs =>
    have hchildren := run_rendering hc hcs ⟨tag, as, []⟩ []
      ('<' :: '/' :: tag ++ gap' ++ '>' :: s) ((clear_cons _ _ _).2 (by decide))
    have hend := run_endTag_root ht hg' (e := Element.extend ⟨tag, as, []⟩ children) rfl s
    rw [run_tag_open_root ht has ha hg hroot, firsts_of_distinct hd, hchildren, hend]
    simp [Element.extend]

/-- A void element without a slash, a value with a `>` in it, an attribute without a value, text next
to a CDATA section that holds a tag, and blanks in the end tag. -/
theorem parse_rendering_mixed :
    parse "<svg a = '>' b><path d=M0>t<![CDATA[<g>]]><!--c--></svg >".toList =
      .ok ⟨rootTag, [⟨['a'], ['>']⟩, ⟨['b'], []⟩],
        [.element "path".toList [⟨['d'], ['M', '0']⟩] [], .text ['t'], .text "<g>".toList,
          .comment ['c']]⟩ := by
  have hpath : AttributesRendering [⟨['d'], ['M', '0']⟩]
      ([' '] ++ ['d'] ++ ([] ++ '=' :: ([] ++ ['M', '0'])) ++ []) :=
    .cons (by decide) (by decide) (.bare rfl rfl (by decide) (forall_mem_of_all (by decide))) .nil
  have hsvg : AttributesRendering [⟨['a'], ['>']⟩, ⟨['b'], []⟩]
      ([' '] ++ ['a'] ++ ([' '] ++ '=' :: ([' '] ++ '\'' :: ['>'] ++ ['\''])) ++
        ([' '] ++ ['b'] ++ [] ++ [])) :=
    .cons (by decide) (by decide) (.quoted rfl rfl rfl (by decide))
      (.cons (by decide) (by decide) .none .nil)
  have hchildren : Rendering false
      [.element "path".toList [⟨['d'], ['M', '0']⟩] [], .text ['t'], .text "<g>".toList,
        .comment ['c']] _ :=
    .void (by decide) hpath (show isBlankText [] = true from rfl) (.inl rfl)
      (.plain (by decide) (by decide) (.cdata (by decide) (.comment .nil)))
  have h : Rendering false [Element.node ⟨rootTag, [⟨['a'], ['>']⟩, ⟨['b'], []⟩], _⟩] _ :=
    .element (by decide) hsvg (show isBlankText [] = true from rfl) hchildren
      (show isBlankText [' '] = true from rfl) .nil
  simpa [rootTag] using parse_rendering rfl (by decide +kernel) h

end SvgComponent.Markup
