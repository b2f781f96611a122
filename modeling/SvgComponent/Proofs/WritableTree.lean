import SvgComponent.Proofs.ComponentSource

/-!
# A tree that was read can be written as it is

Whatever the text, each element of the tree that is read from it has a tag and attributes that can
stand in markup, and nothing below it that its tag forbids (`Element.WellFormed`). Adapting the tree
keeps that, so when it is written

* every attribute value stands between two quotation marks just as it is, and
* every void element is a line of its own that closes itself, and no other line has a void tag in
  front (`filter_lines`).
-/

namespace SvgComponent.Markup

open Text

/-! ## Elements of sound trees -/

/-- What the writer may rely on in an element. -/
structure Element.WellFormed (e : Element) : Prop where
  tag : ∃ c s, e.tag = c :: s ∧ isNameStart c = true ∧ ∀ d ∈ s, isNameChar d = true
  names : ∀ a ∈ e.attributes, a.name ≠ [] ∧
    ∀ c ∈ a.name, isBlank c = false ∧ c ∉ ['=', '/', '>', '"', '\'', '<']
  distinct : (e.attributes.map Attribute.name).Nodup
  values : ∀ a ∈ e.attributes, ¬('"' ∈ a.value ∧ '\'' ∈ a.value)
  comments : ∀ body, Node.comment body ∈ e.children → ¬"-->".toList <:+: body
  void : isVoid e.tag = true → e.children = []

theorem isProper_of_mem {ns : List Node} (h : Node.areProper ns = true) {n : Node} (hn : n ∈ ns) :
    n.isProper = true := by
  induction ns with
  | nil => cases hn
  | cons m ns ih =>
    simp only [Node.areProper, Bool.and_eq_true] at h
    rcases List.mem_cons.1 hn with rfl | hn
    · exact h.1
    · exact ih h.2 hn

theorem before?_isSome_of_infix {pat s : List Char} (h : pat <:+: s) : (before? pat s).isSome = true := by
  induction s with
  | nil => simp [before?, List.eq_nil_of_infix_nil h]
  | cons c s ih =>
    rw [before?]
    split
    · rfl
    · rename_i hp
      rcases List.infix_cons_iff.1 h with h | h
      · exact absurd (List.isPrefixOf_iff_prefix.2 h) hp
      · simpa using ih h

theorem Element.WellFormed.of_isSound {e : Element} (h : e.node.isSound = true) : e.WellFormed := by
  obtain ⟨tag, attributes, children⟩ := e
  simp only [Element.node, isSound_element, properAttributes_iff, List.all_eq_true] at h
  obtain ⟨ht, ⟨hn, hd⟩, hq, hv, hc, -⟩ := h
  refine ⟨?_, fun a ha => ?_, ?_, fun a ha => ?_, fun body hb hi => ?_, fun hvoid => ?_⟩
  · cases tag with
    | nil => cases ht
    | cons c s =>
      simp only [isTagName, Bool.and_eq_true, List.all_eq_true] at ht
      exact ⟨c, s, rfl, ht⟩
  · have hname := hn a ha
    simp only [isAttributeName, Bool.and_eq_true, Bool.not_eq_true', List.isEmpty_eq_false_iff,
      List.all_eq_true] at hname
    refine ⟨hname.1, fun c hc => ?_⟩
    obtain ⟨hb, hne⟩ := isAttributeChar_iff.1 (hname.2 c hc)
    exact ⟨hb, by simpa using hne⟩
  · simpa [distinctNames] using hd
  · have := hq a ha
    simp only [isQuotable, Bool.or_eq_true, Bool.not_eq_true', List.contains_eq_mem,
      decide_eq_false_iff_not] at this
    exact not_and_or.2 this
  · have hp := isProper_of_mem hc hb
    simp only [Node.isProper, occursIn, before?_isSome_of_infix hi] at hp
    cases hp
  · exact hv.resolve_left (by simp [hvoid])

mutual

theorem isSound_of_mem_elements :
    ∀ n : Node, n.isSound = true → ∀ e ∈ n.elements, e.node.isSound = true
  | .element tag attributes children, h, e, he => by
    obtain ⟨-, -, -, -, hc, ha⟩ := isSound_element.1 h
    rcases List.mem_cons.1 he with rfl | he
    · exact h
    · exact isSound_of_mem_elementsOf children hc ha e he
  | .text _, _, e, he => by cases he
  | .comment _, _, e, he => by cases he

theorem isSound_of_mem_elementsOf :
    ∀ ns : List Node, Node.areProper ns = true → Node.allAttributesOf (isQuotable ·.value) ns = true →
      ∀ e ∈ Node.elementsOf ns, e.node.isSound = true
  | [], _, _, e, he => by cases he
  | n :: ns, hp, ha, e, he => by
    simp only [Node.areProper, Node.allAttributesOf, Bool.and_eq_true] at hp ha
    rcases List.mem_append.1 he with he | he
    · exact isSound_of_mem_elements n (by simp [Node.isSound, hp.1, ha.1]) e he
    · exact isSound_of_mem_elementsOf ns hp.2 ha.2 e he

end

/-- **Every element of a sound tree is well-formed.** -/
theorem wellFormed_of_mem_elements {root e : Element} (h : root.node.isSound = true)
    (he : e ∈ root.elements) : e.WellFormed :=
  .of_isSound (isSound_of_mem_elements root.node h e he)

end SvgComponent.Markup

namespace SvgComponent.Jsx

open Text Markup

/-! ## Values in quotes -/

/-- A value without both marks is written verbatim: the entity for a mark is never needed. -/
theorem quoteAttribute_enclose (quote : Quote) {value : List Char} (h : ¬('"' ∈ value ∧ '\'' ∈ value)) :
    ∃ q : Quote, q.char ∉ value ∧ quoteAttribute quote value = q.enclose value := by
  have hquotable : isQuotable value = true := by simpa [isQuotable] using not_and_or.1 h
  obtain ⟨q, hq, hv, he⟩ := quoteAttribute_eq quote hquotable
  simp only [isQuote, Bool.or_eq_true, beq_iff_eq] at hq
  rcases hq with rfl | rfl
  · exact ⟨.double, hv, he⟩
  · exact ⟨.single, hv, he⟩

/-! ## The tag in front of a line -/

/-- The tag that stands in front of a line, in a start tag or in an end tag. -/
def leadingTag (line : List Char) : List Char :=
  match line.dropWhile isBlank with
  | '<' :: '/' :: s => tagName s
  | '<' :: s => tagName s
  | _ => []

theorem leadingTag_spaces {spaces : List Char} (h : ∀ c ∈ spaces, c = ' ') (s : List Char) :
    leadingTag (spaces ++ s) = leadingTag s := by
  have hb : ∀ c ∈ spaces, isBlank c = true := fun c hc => by
    rw [h c hc]
    decide
  rw [leadingTag, List.dropWhile_append_of_pos hb, ← leadingTag]

theorem leadingTag_indentation (level : Int) (s : List Char) :
    leadingTag (indentation level ++ s) = leadingTag s :=
  leadingTag_spaces (fun _ => mem_indentation) s

theorem leadingTag_open {tag rest : List Char} (ht : isTagName tag = true)
    (hr : Clear isNameChar rest) : leadingTag ('<' :: tag ++ rest) = tag := by
  have hname := tagName_append ht hr
  cases tag with
  | nil => cases ht
  | cons c s =>
    have hc : c ≠ '/' := by
      rintro rfl
      simp [isTagName, isNameStart_slash] at ht
    have hlt : isBlank '<' = false := by decide
    simp only [leadingTag, List.cons_append, List.dropWhile_cons, hlt, Bool.false_eq_true, if_false]
    split
    · rename_i heq
      exact absurd (List.cons.inj (List.cons.inj heq).2).1 hc
    · rename_i heq
      rw [← (List.cons.inj heq).2]
      exact hname
    · rename_i hno
      exact absurd rfl (hno _)

theorem leadingTag_endTag {tag : List Char} (ht : isTagName tag = true) :
    leadingTag (endTag tag) = tag := by
  have hgt : Clear isNameChar ['>'] := (clear_cons _ _ _).2 (by decide +kernel)
  have hlt : isBlank '<' = false := by decide
  simp only [leadingTag, endTag, List.cons_append, List.dropWhile_cons, hlt, Bool.false_eq_true,
    if_false]
  exact tagName_append ht hgt

/-- A start tag has its own tag in front, whatever ends it. -/
theorem leadingTag_startTag (quote : Quote) {e : Element} (ht : isTagName e.tag = true)
    (extra : List (List Char)) {rest : List Char} (hr : Clear isNameChar rest) :
    leadingTag (startTag quote e extra ++ rest) = e.tag := by
  have hspaced : ∀ parts : List (List Char), Clear isNameChar (parts.flatMap (' ' :: ·) ++ rest) := by
    intro parts
    cases parts with
    | nil => exact hr
    | cons x parts => exact (clear_cons _ _ _).2 (not_isNameChar_of_isBlank (by decide))
  rw [startTag, List.append_assoc]
  exact leadingTag_open ht (hspaced _)

theorem leadingTag_of_isQuiet {line : List Char} (h : isQuiet line = true) : leadingTag line = [] := by
  induction line with
  | nil => rfl
  | cons c s ih =>
    simp only [isQuiet, Bool.and_eq_true, Bool.or_eq_true, bne_iff_ne, beq_iff_eq] at h
    by_cases hc : isBlank c = true
    · rw [leadingTag, List.dropWhile_cons_of_pos hc, ← leadingTag]
      exact ih h.2
    · rw [leadingTag, List.dropWhile_cons_of_neg hc]
      split
      · rename_i heq
        obtain ⟨rfl, rfl⟩ := List.cons.inj heq
        simp at h
      · rename_i t _ heq
        obtain ⟨rfl, rfl⟩ := List.cons.inj heq
        cases s with
        | nil => rfl
        | cons d s =>
          have hd : d = '"' := by simpa using h.1
          simp [tagName, hd, show isNameStart '"' = false by decide]
      · rfl

theorem leadingTag_formatComment (body : List Char) : leadingTag (formatComment body) = [] := by
  have hbrace : ∀ s, leadingTag ('\x7b' :: s) = [] := fun s => by
    simp [leadingTag, show isBlank '\x7b' = false by decide]
  rw [formatComment]
  split
  · exact hbrace _
  · exact hbrace _

/-! ## The lines of void elements -/

/-- Whether a void tag stands in front of a line. -/
def opensVoid (line : List Char) : Bool := isVoid (leadingTag line)

/-- The line that a row of a tree at `level` makes if it is a void element: its start tag, closed in
itself. -/
def selfClosed? (quote : Quote) (level : Int) : Nat × Row → Option (List Char)
  | (depth, .element tag attributes) =>
    if isVoid tag then
      some (indentation (level + depth) ++ startTag quote ⟨tag, attributes, []⟩ [] ++ " />".toList)
    else none
  | _ => none

theorem opensVoid_line (level : Int) {content : List Char} (h : leadingTag content = []) :
    opensVoid (indentation level ++ indentUnit ++ content) = false := by
  have hunit : ∀ c ∈ indentUnit, c = ' ' := by simp [indentUnit]
  rw [opensVoid, List.append_assoc, leadingTag_indentation, leadingTag_spaces hunit, h]
  decide

/-- Text below an element makes no line for a void element. -/
theorem filterMap_rowsOf_text (quote : Quote) (level : Int) (depth : Nat) {ns : List Node}
    (h : ns.all isTextNode = true) :
    (Node.rowsOf depth ns).filterMap (selfClosed? quote level) = [] := by
  induction ns with
  | nil => rfl
  | cons n ns ih =>
    simp only [List.all_cons, Bool.and_eq_true] at h
    cases n with
    | text s => simpa [Node.rowsOf, Node.rows, selfClosed?] using ih h.2
    | element tag attributes children => exact absurd h.1 (by simp [isTextNode])
    | comment body => exact absurd h.1 (by simp [isTextNode])

theorem filter_framed (quote : Quote) (level : Int) (depth : Nat) {extra : List (List Char)}
    {e : Element} {inner : List (List Char)} (h : e.node.isProper = true)
    (hx : isVoid e.tag = true → extra = [])
    (hi : inner.filter opensVoid =
      (Node.rowsOf (depth + 1) e.children).filterMap (selfClosed? quote level)) :
    (framed quote (level + depth) extra e inner).filter opensVoid =
      (e.node.rows depth).filterMap (selfClosed? quote level) := by
  obtain ⟨tag, attributes, children⟩ := e
  simp only [Element.node, Node.isProper, Bool.and_eq_true, Bool.or_eq_true, Bool.not_eq_true',
    List.isEmpty_iff] at h
  obtain ⟨⟨⟨ht, -⟩, hv⟩, -⟩ := h
  have hopen : ∀ rest, Clear isNameChar rest →
      opensVoid (indentation (level + depth) ++ startTag quote ⟨tag, attributes, children⟩ extra ++ rest) =
        isVoid tag := fun rest hr => by
    rw [opensVoid, List.append_assoc, leadingTag_indentation, leadingTag_startTag quote ht extra hr]
  have hself : Clear isNameChar " />".toList := (clear_cons _ _ _).2 (by decide +kernel)
  have hend : ∀ s, Clear isNameChar ('>' :: s) := fun s => (clear_cons _ _ _).2 (by decide +kernel)
  simp only [Element.node, Node.rows, List.filterMap_cons, selfClosed?]
  by_cases hvoid : isVoid tag = true
  · -- Nothing stands below a void element, so it closes itself.
    obtain rfl : children = [] := hv.resolve_left (by simp [hvoid])
    obtain rfl : extra = [] := hx hvoid
    have hframed : framed quote (level + depth) [] ⟨tag, attributes, []⟩ inner =
        [indentation (level + depth) ++ startTag quote ⟨tag, attributes, []⟩ [] ++ " />".toList] := rfl
    rw [hframed, List.filter_cons_of_pos (by rw [hopen _ hself]; exact hvoid), if_pos hvoid]
    rfl
  · -- Any other tag stands in front of lines that do not count, and only the children are left.
    have hdrop : ∀ rest, Clear isNameChar rest → ∀ lines : List (List Char),
        ((indentation (level + depth) ++ startTag quote ⟨tag, attributes, children⟩ extra ++ rest) ::
          lines).filter opensVoid = lines.filter opensVoid := fun rest hr lines =>
      List.filter_cons_of_neg (by rw [hopen rest hr]; exact hvoid)
    have hclose : opensVoid (indentation (level + depth) ++ endTag tag) = false := by
      rw [opensVoid, leadingTag_indentation, leadingTag_endTag ht]
      simpa using hvoid
    rw [if_neg hvoid, framed]
    split
    · rename_i hb
      rw [hdrop _ hself, filterMap_rowsOf_text _ _ _ (isTextNode_of_isBlankNode hb)]
      rfl
    split
    · rename_i hb
      rw [List.append_assoc, List.cons_append, hdrop _ (hend _), filterMap_rowsOf_text _ _ _ hb]
      rfl
    · rw [List.cons_append, hdrop _ (hend _), List.filter_append, hi]
      simp [hclose]

theorem filter_childLines (quote : Quote) (level : Int) (depth : Nat) (first : Bool) :
    ∀ ns : List Node, Node.areProper ns = true →
      (childLines quote (level + depth) first ns).filter opensVoid =
        (Node.rowsOf (depth + 1) ns).filterMap (selfClosed? quote level)
  | [], _ => rfl
  | .element tag attributes children :: ns, h => by
    simp only [Node.areProper, Bool.and_eq_true] at h
    have hc : Node.areProper children = true := by
      simp only [Node.isProper, Bool.and_eq_true] at h
      exact h.1.2
    have hchild := filter_framed quote level (depth + 1) (e := ⟨tag, attributes, children⟩) h.1
      (fun _ => rfl) (filter_childLines quote level (depth + 1) true children hc)
    have hlevel : level + ((depth + 1 : Nat) : Int) = level + depth + 1 := by omega
    rw [hlevel] at hchild
    rw [childLines, nodeLines, Node.rowsOf, List.filter_append, List.filterMap_append,
      filter_childLines quote level depth false ns h.2, hchild]
    rfl
  | .comment body :: ns, h => by
    simp only [Node.areProper, Bool.and_eq_true] at h
    have hline := opensVoid_line (level + depth) (leadingTag_formatComment body)
    rw [childLines, nodeLines, Node.rowsOf, List.filter_append, List.filterMap_append,
      filter_childLines quote level depth false ns h.2, List.filter_cons_of_neg (by rw [hline]; decide)]
    rfl
  | .text s :: ns, h => by
    simp only [Node.areProper, Bool.and_eq_true] at h
    have hquiet := isQuiet_mixedText first ns.isEmpty s
    rw [childLines, nodeLines, Node.rowsOf, List.filter_append, List.filterMap_append,
      filter_childLines quote level depth false ns h.2]
    split
    · rfl
    · have hline := opensVoid_line (level + depth) (leadingTag_of_isQuiet hquiet)
      rw [List.filter_cons_of_neg (by rw [hline]; decide)]
      rfl

/-- **Void elements close themselves.** Of the lines of a proper tree those with a void tag in front are
the self-closed lines of its void elements, one for each and in the order of the tree. -/
theorem filter_lines (quote : Quote) (level : Int) {extra : List (List Char)} {e : Element}
    (h : e.node.isProper = true) (hx : isVoid e.tag = true → extra = []) :
    (lines quote level extra e).filter opensVoid = e.rows.filterMap (selfClosed? quote level) := by
  have hc : Node.areProper e.children = true := by
    simp only [Element.node, Node.isProper, Bool.and_eq_true] at h
    exact h.2
  have hinner := filter_childLines quote level 0 true e.children hc
  have hframed := filter_framed quote level 0 h hx hinner
  have hlevel : level + ((0 : Nat) : Int) = level := by omega
  rw [hlevel] at hframed
  rw [lines_eq_framed]
  exact hframed

/-- **What is read is well-formed, and is written as it is.** -/
theorem parse_writable {s : List Char} {root : Element} (h : parse s = .ok root) :
    root.tag = "svg".toList ∧ (∀ e ∈ root.elements, e.WellFormed) ∧
      ∀ (withoutIds : Bool) (quote : Quote),
        (∀ e ∈ (adapt root withoutIds).elements, ∀ a ∈ e.attributes,
          ∃ q : Quote, q.char ∉ a.value ∧ quoteAttribute quote a.value = q.enclose a.value) ∧
        ∀ (level : Int) (extra : List (List Char)),
          (lines quote level extra (adapt root withoutIds)).filter opensVoid =
            (adapt root withoutIds).rows.filterMap (selfClosed? quote level) := by
  obtain ⟨htag, hs⟩ := parse_sound h
  refine ⟨htag, fun e he => wellFormed_of_mem_elements hs he, fun withoutIds quote => ?_⟩
  have hadapt := isSound_adapt withoutIds hs
  refine ⟨fun e he a ha => ?_, fun level extra => ?_⟩
  · exact quoteAttribute_enclose quote ((wellFormed_of_mem_elements hadapt he).values a ha)
  · rw [Node.isSound, Bool.and_eq_true] at hadapt
    refine filter_lines quote level hadapt.1 fun hvoid => ?_
    rw [adapt_tag, htag] at hvoid
    exact absurd hvoid (by decide)

/-- A document with a void element left open, one in capitals, a repeated attribute, an unquoted value
and a close tag missing. -/
theorem parse_writable_malformed :
    ∃ root, parse "<svg a='\"' a=2><!-- > --><PATH d=\"it's\">x</path><g><circle r=1 ></svg>".toList =
        .ok root ∧
      (∀ e ∈ root.elements, e.WellFormed) ∧
      (lines .single 0 [] (adapt root true)).filter opensVoid =
        ["  <PATH d=\"it's\" />".toList, "    <circle r='1' />".toList] := by
  obtain ⟨root, hroot, hrows⟩ := exists_parse_of_any
    (s := "<svg a='\"' a=2><!-- > --><PATH d=\"it's\">x</path><g><circle r=1 ></svg>".toList)
    (p := fun root => decide ((adapt root true).rows.filterMap (selfClosed? .single 0) =
      ["  <PATH d=\"it's\" />".toList, "    <circle r='1' />".toList])) (by decide +kernel)
  obtain ⟨-, hwell, hwritten⟩ := parse_writable hroot
  exact ⟨root, hroot, hwell, ((hwritten true .single).2 0 []).trans (of_decide_eq_true hrows)⟩

end SvgComponent.Jsx
