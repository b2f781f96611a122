import SvgComponent.Proofs.MinifiedText
import SvgComponent.Proofs.WritableTree

/-!
# Printing what was read back

The writer puts every child on a line of its own, and reading that back makes the line breaks and the
indentation text between the children. In a tree without comments and special characters, in which text
among other nodes shows nothing (`LaidOut`), nothing else changes: the lines are markup for the tree that
`rereadRoot` tells, to the letter (`parse_lines_laidOut`), and that tree makes the same lines
(`lines_rereadRoot`).

* `spaced_spaced`: words that are one space apart stay so.
* `textLines_eq_nil_iff`: which texts among other nodes show nothing.
* `OnlyElements`: siblings of which only the elements are written. The rendering and the lines of their
  elements follow from those of the children (`rendering_childLines`, `childLines_rereadNodes`).
-/

namespace SvgComponent.Text

theorem isBlankText_spaced (s : List Char) : isBlankText (spaced s) = isBlankText s := by
  rw [Bool.eq_iff_iff, ← words_eq_nil, words_spaced, words_eq_nil]

/-- Words that are one space apart stay so. -/
theorem spaced_spaced (s : List Char) : spaced (spaced s) = spaced s :=
  congrArg ([' '].intercalate ·) (words_spaced s)

end SvgComponent.Text

namespace SvgComponent.Jsx

open Text Markup

/-! ## Text without special characters -/

theorem escapeText_plain {s : List Char} (h : ∀ c ∈ s, isSpecial c = false) :
    escapeText s = spaced s ∧ ∀ c ∈ spaced s, isSpecial c = false := by
  have hplain : ∀ c ∈ spaced s, isSpecial c = false := by
    intro c hc
    rcases mem_spaced hc with rfl | hc
    · decide
    · exact h c hc
  refine ⟨?_, hplain⟩
  rw [escapeText, containSpecial, List.flatMap_congr fun c hc => if_neg (by simp [hplain c hc]),
    List.flatMap_singleton']

/-- Text without special characters is written once and for all. -/
theorem escapeText_escapeText {s : List Char} (h : ∀ c ∈ s, isSpecial c = false) :
    escapeText (escapeText s) = escapeText s := by
  obtain ⟨hs, hplain⟩ := escapeText_plain h
  rw [hs, (escapeText_plain hplain).1, spaced_spaced]

/-! ## Text that shows nothing -/

theorem mixedText_eq_nil_iff {first last : Bool} {s : List Char} :
    mixedText first last s = [] ↔
      isBlankText s = true ∧ ('\n' ∈ s ∨ first = true ∨ last = true) := by
  rw [mixedText]
  split
  · rename_i hs
    cases first <;> cases last <;> by_cases hn : '\n' ∈ s <;> simp [hs, hn, container]
  · rename_i hs
    have hne : escapeText s ≠ [] := fun h => hs (escapeText_eq_nil.1 h)
    simp [hs, hne]

/-- **Which texts show nothing among other nodes**: blank ones, if they hold a line feed or stand at an
end. -/
theorem textLines_eq_nil_iff {first : Bool} {ns : List Node} :
    (∀ line ∈ textLines first ns, line = []) ↔
      ∀ before s after, ns = before ++ .text s :: after →
        isBlankText s = true ∧ ('\n' ∈ s ∨ (first = true ∧ before = []) ∨ after = []) := by
  induction ns generalizing first with
  | nil => simp [textLines]
  | cons n ns ih =>
    -- Text behind the first node is not the first child, whatever `first` says.
    have hlater : (∀ line ∈ textLines false ns, line = []) ↔
        ∀ before s after, ns = before ++ .text s :: after →
          isBlankText s = true ∧ ('\n' ∈ s ∨ after = []) := by
      rw [ih]
      simp
    by_cases hn : ∃ t, n = .text t
    · obtain ⟨t, rfl⟩ := hn
      rw [textLines, List.forall_mem_cons, hlater, mixedText_eq_nil_iff, List.isEmpty_iff]
      constructor
      · rintro ⟨⟨hblank, hedge⟩, hns⟩ before s after hsplit
        cases before with
        | nil =>
          obtain ⟨⟨rfl⟩, rfl⟩ := List.cons.inj hsplit
          exact ⟨hblank, hedge.imp id (Or.imp (⟨·, rfl⟩) id)⟩
        | cons m before =>
          obtain ⟨hs, hedge'⟩ := hns before s after (List.cons.inj hsplit).2
          exact ⟨hs, hedge'.imp id .inr⟩
      · intro h
        obtain ⟨hblank, hedge⟩ := h [] t ns rfl
        refine ⟨⟨hblank, hedge.imp id (Or.imp And.left id)⟩, fun before s after hsplit => ?_⟩
        obtain ⟨hs, hedge'⟩ := h (.text t :: before) s after (by rw [hsplit]; rfl)
        exact ⟨hs, by simpa using hedge'⟩
    · rw [textLines, hlater]
      · constructor
        · intro hns before s after hsplit
          cases before with
          | nil => exact absurd ⟨s, (List.cons.inj hsplit).1⟩ hn
          | cons m before =>
            obtain ⟨hs, hedge⟩ := hns before s after (List.cons.inj hsplit).2
            exact ⟨hs, hedge.imp id .inr⟩
        · intro h before s after hsplit
          obtain ⟨hs, hedge⟩ := h (n :: before) s after (by rw [hsplit]; rfl)
          exact ⟨hs, by simpa using hedge⟩
      · exact fun t ht => hn ⟨t, ht⟩

/-! ## Trees that are laid out -/

/-- An element in which the layout of the writer takes the place of nothing that the writer shows. -/
structure LaidOut (e : Element) : Prop where
  comments : ∀ body, .comment body ∉ e.children
  plain : ∀ s, .text s ∈ e.children → ∀ c ∈ s, isSpecial c = false
  /-- Text among other nodes is blank, and has a line feed in it or is the first or the last child. -/
  blanks : isMixed e = true → ∀ before s after, e.children = before ++ .text s :: after →
    isBlankText s = true ∧ ('\n' ∈ s ∨ before = [] ∨ after = [])

/-- The check that decides whether an element is laid out. -/
def isLaidOut (e : Element) : Bool :=
  e.children.all (fun
    | .comment _ => false
    | .text s => s.all (!isSpecial ·)
    | _ => true) &&
  (!isMixed e || (textLines true e.children).all List.isEmpty)

theorem isLaidOut_iff {e : Element} : isLaidOut e = true ↔ LaidOut e := by
  have hblanks : (∀ line ∈ textLines true e.children, line = []) ↔
      ∀ before s after, e.children = before ++ .text s :: after →
        isBlankText s = true ∧ ('\n' ∈ s ∨ before = [] ∨ after = []) := by
    rw [textLines_eq_nil_iff]
    simp
  rw [isLaidOut, Bool.and_eq_true, List.all_eq_true, Bool.or_eq_true, Bool.not_eq_true',
    List.all_eq_true]
  simp only [List.isEmpty_iff, hblanks]
  constructor
  · rintro ⟨hchildren, hmixed⟩
    refine ⟨fun body hm => ?_, fun s hm => ?_, fun h => ?_⟩
    · cases hchildren _ hm
    · simpa using hchildren _ hm
    · exact hmixed.resolve_left (by simp [h])
  · intro h
    refine ⟨fun n hn => ?_, ?_⟩
    · split
      · exact absurd hn (h.comments _)
      · simpa using h.plain _ hn
      · rfl
    · cases hm : isMixed e with
      | false => exact .inl rfl
      | true => exact .inr (h.blanks hm)

theorem LaidOut.plain_flatMap {e : Element} (h : LaidOut e) :
    ∀ c ∈ e.children.flatMap textContent, isSpecial c = false := by
  intro c hc
  obtain ⟨n, hn, hc⟩ := List.mem_flatMap.1 hc
  cases n with
  | text s => exact h.plain s hn c hc
  | element tag attributes children => cases hc
  | comment body => cases hc

/-- Siblings of which only the elements are written, each of them sound and laid out. -/
structure OnlyElements (first : Bool) (ns : List Node) : Prop where
  comments : ∀ body, .comment body ∉ ns
  texts : ∀ line ∈ textLines first ns, line = []
  elements : ∀ e ∈ Node.elementsOf ns, e.node.isSound = true ∧ LaidOut e

theorem LaidOut.onlyElements {e : Element} (h : LaidOut e) (hmixed : isMixed e = true)
    (he : ∀ e' ∈ Node.elementsOf e.children, e'.node.isSound = true ∧ LaidOut e') :
    OnlyElements true e.children where
  comments := h.comments
  texts := by
    rw [textLines_eq_nil_iff]
    simpa using h.blanks hmixed
  elements := he

theorem OnlyElements.text {first : Bool} {s : List Char} {ns : List Node}
    (h : OnlyElements first (.text s :: ns)) :
    mixedText first ns.isEmpty s = [] ∧ OnlyElements false ns := by
  obtain ⟨hc, ht, he⟩ := h
  rw [textLines, List.forall_mem_cons] at ht
  exact ⟨ht.1, fun body hm => hc body (by simp [hm]), ht.2, fun e hm => he e hm⟩

theorem OnlyElements.element {first : Bool} {tag : List Char} {attributes : List Attribute}
    {children ns : List Node} (h : OnlyElements first (.element tag attributes children :: ns)) :
    (Node.element tag attributes children).isSound = true ∧ LaidOut ⟨tag, attributes, children⟩ ∧
      (isMixed ⟨tag, attributes, children⟩ = true → OnlyElements true children) ∧
      OnlyElements false ns := by
  obtain ⟨hc, ht, he⟩ := h
  simp only [Node.elementsOf, Node.elements, List.mem_append, List.mem_cons] at he
  obtain ⟨hsound, hlaid⟩ := he ⟨tag, attributes, children⟩ (.inl (.inl rfl))
  refine ⟨hsound, hlaid, fun hmixed => ?_, fun body hm => hc body (by simp [hm]), ?_, ?_⟩
  · exact hlaid.onlyElements hmixed fun e hm => he e (.inl (.inr hm))
  · simpa [textLines] using ht
  · exact fun e hm => he e (.inr hm)

/-! ## The lines are markup for the tree that is read back -/

/-- The text of an element is a rendering of what is read back of it, if that of its children is. -/
theorem rendering_elementText (quote : Quote) (level : Int) {e : Element}
    (he : e.node.isSound = true) (hl : LaidOut e) {inner : List Char} {ms : List Node}
    (hi : isMixed e = true → Rendering false (ms ++ [.text ('\n' :: indentation level)])
      (inner ++ '\n' :: indentation level))
    {afterText : Bool} {ns : List Node} {s : List Char} (hs : Rendering false ns s) :
    Rendering afterText (.element e.tag e.attributes (rereadContent level e.children ms) :: ns)
      (elementText quote level [] e inner ++ s) := by
  simp only [Element.node, isSound_element] at he
  obtain ⟨-, -, hq, hv, -, -⟩ := he
  obtain ⟨a, hstart, ha⟩ := startTag_rendering quote e [] hq
  rw [show bareAttributes [] = [] from rfl, List.append_nil] at ha
  simp only [elementText, rereadContent, hstart]
  cases hb : e.children.all isBlankNode with
  | true =>
    cases hvoid : isVoid e.tag with
    | true =>
      have hself : Rendering afterText _ _ :=
        .void hvoid ha (show isBlankText [' '] = true from rfl) (.inr rfl) hs
      simpa using hself
    | false =>
      have hself : Rendering afterText _ _ :=
        .empty hvoid ha (show isBlankText [' '] = true from rfl) hs
      simpa using hself
  | false =>
    have hvoid := not_isVoid_of_content hv hb
    -- The two forms with an end tag differ only in what stands between the tags.
    have hmain : ∀ {content : List Char} {children : List Node}, Rendering false children content →
        Rendering afterText (.element e.tag e.attributes children :: ns)
          ('<' :: e.tag ++ (a ++ '>' :: (content ++ (endTag e.tag ++ s)))) := by
      intro content children hc
      have hblank : isBlankText [] = true := rfl
      have helement : Rendering afterText _ _ := .element hvoid ha hblank hc hblank hs
      simpa [endTag] using helement
    cases hx : e.children.all isTextNode with
    | true =>
      obtain ⟨hspaced, hplain⟩ := escapeText_plain hl.plain_flatMap
      have hne : escapeText (e.children.flatMap textContent) ≠ [] := by
        rw [Ne, escapeText_eq_nil, isBlankText_flatMap hx, hb]
        simp
      have hlt : '<' ∉ escapeText (e.children.flatMap textContent) := fun hm => by
        rw [hspaced] at hm
        cases hplain _ hm
      have := hmain (.plain hne hlt .nil)
      simpa using this
    | false =>
      have := hmain (hi (by simp [isMixed, hx]))
      simpa using this

/-- The lines of the children and the margin of the end tag are a rendering of what is read back. Line
breaks and elements take turns, so no two texts meet. -/
theorem rendering_childLines (quote : Quote) (level : Int) :
    ∀ {first : Bool} {ns : List Node}, OnlyElements first ns →
      Rendering false (rereadNodes level first ns ++ [.text ('\n' :: indentation level)])
        (block (childLines quote level first ns) ++ '\n' :: indentation level)
  | _, [], _ => by
    have := Rendering.plain (List.cons_ne_nil _ _) (not_mem_indentation level) .nil
    simpa [rereadNodes, childLines] using this
  | first, .element tag attributes children :: ns, h => by
    obtain ⟨he, hl, hchildren, hns⟩ := h.element
    have hrest := rendering_childLines quote level hns
    have helement : Rendering true _ _ :=
      rendering_elementText quote (level + 1) (e := ⟨tag, attributes, children⟩) he hl
        (fun hmixed => rendering_childLines quote (level + 1) (hchildren hmixed)) hrest
    have := Rendering.plain (List.cons_ne_nil _ _) (not_mem_indentation (level + 1)) helement
    rw [childLines, block_append, nodeLines, block_framed, rereadNodes, rereadNode]
    simpa using this
  | _, .text s :: ns, h => by
    obtain ⟨hs, hns⟩ := h.text
    have := rendering_childLines quote level hns
    simpa [childLines, nodeLines, rereadNodes, rereadNode, hs] using this
  | _, .comment body :: ns, h => absurd (by simp) (h.comments body)

theorem areProper_rereadContent (level : Int) (children : List Node) {inner : List Node}
    (h : Node.areProper inner = true) : Node.areProper (rereadContent level children inner) = true := by
  rw [rereadContent]
  split
  · rfl
  split
  · rfl
  · rw [areProper_append, h]
    rfl

/-- What is read back of a proper element is proper: it has no content if it had none. -/
theorem isProper_reread (level : Int) {tag : List Char} {attributes : List Attribute}
    {children inner : List Node} (h : (Node.element tag attributes children).isProper = true)
    (hi : Node.areProper inner = true) :
    (Node.element tag attributes (rereadContent level children inner)).isProper = true := by
  simp only [Node.isProper, Bool.and_eq_true, Bool.or_eq_true, Bool.not_eq_true', List.isEmpty_iff] at h ⊢
  obtain ⟨⟨⟨ht, ha⟩, hv⟩, -⟩ := h
  refine ⟨⟨⟨ht, ha⟩, hv.imp id ?_⟩, areProper_rereadContent level children hi⟩
  rintro rfl
  rfl

theorem areProper_rereadNodes (level : Int) :
    ∀ (first : Bool) {ns : List Node}, Node.areProper ns = true →
      Node.areProper (rereadNodes level first ns) = true
  | _, [], _ => rfl
  | first, .element tag attributes children :: ns, h => by
    rw [Node.areProper, Bool.and_eq_true] at h
    have hchildren : Node.areProper children = true := by
      have he := h.1
      rw [Node.isProper, Bool.and_eq_true] at he
      exact he.2
    have he := isProper_reread (level + 1) h.1 (areProper_rereadNodes (level + 1) true hchildren)
    rw [rereadNodes, areProper_append, areProper_rereadNodes level false h.2, Bool.and_true, rereadNode,
      Node.areProper, Node.areProper, he]
    rfl
  | first, .text s :: ns, h => by
    rw [Node.areProper, Bool.and_eq_true] at h
    rw [rereadNodes, areProper_append, areProper_rereadNodes level false h.2, Bool.and_true, rereadNode]
    cases mixedText first ns.isEmpty s <;> rfl
  | _, .comment body :: ns, h => by
    rw [Node.areProper, Bool.and_eq_true] at h
    rw [rereadNodes, areProper_append, areProper_rereadNodes level false h.2, Bool.and_true, rereadNode]
    rfl

/-! ## The tree that is read back makes the same lines -/

theorem not_all_isTextNode_rereadNodes (level : Int) (first : Bool) {ns : List Node}
    (hc : ∀ body, .comment body ∉ ns) (h : ns.all isTextNode = false) :
    (rereadNodes level first ns).all isTextNode = false := by
  induction ns generalizing first with
  | nil => cases h
  | cons n ns ih =>
    rw [rereadNodes, List.all_append]
    cases n with
    | element tag attributes children => simp [rereadNode, isTextNode]
    | comment body => exact absurd (by simp) (hc body)
    | text s =>
      rw [List.all_cons, isTextNode, Bool.true_and] at h
      rw [ih false (fun body hm => hc body (by simp [hm])) h, Bool.and_false]

/-- What is read back of an element makes the lines of the element, if its content does. -/
theorem framed_reread (quote : Quote) (level : Int) (extra : List (List Char)) {e : Element}
    (h : LaidOut e) {inner : List (List Char)}
    (hi : isMixed e = true → childLines quote level true
      (rereadNodes level true e.children ++ [.text ('\n' :: indentation level)]) = inner) :
    framed quote level extra
      ⟨e.tag, e.attributes, rereadContent level e.children (rereadNodes level true e.children)⟩
      (childLines quote level true (rereadContent level e.children (rereadNodes level true e.children))) =
      framed quote level extra e inner := by
  cases hb : e.children.all isBlankNode with
  | true => simp [framed, rereadContent, startTag, hb]
  | false =>
    cases hx : e.children.all isTextNode with
    | true =>
      have hblank : isBlankText (escapeText (e.children.flatMap textContent)) = false := by
        rw [(escapeText_plain h.plain_flatMap).1, isBlankText_spaced, isBlankText_flatMap hx, hb]
      simp [framed, rereadContent, startTag, hb, hx, isBlankNode, isTextNode, textContent, hblank,
        escapeText_escapeText h.plain_flatMap]
    | false =>
      have helement := not_all_isTextNode_rereadNodes level true h.comments hx
      have hshown : (rereadNodes level true e.children).all isBlankNode = false := by
        rw [Bool.eq_false_iff]
        intro hblank
        rw [isTextNode_of_isBlankNode hblank] at helement
        cases helement
      have hinner := hi (by simp [isMixed, hx])
      simp [framed, rereadContent, startTag, hb, hx, helement, hshown, hinner]

/-- A line break and indentation show nothing. -/
theorem mixedText_layout (first last : Bool) (level : Int) :
    mixedText first last ('\n' :: indentation level) = [] := by
  rw [mixedText_eq_nil_iff, isBlankText_iff]
  refine ⟨fun c hc => ?_, .inl (by simp)⟩
  rcases List.mem_cons.1 hc with rfl | hc
  · decide
  · exact isBlank_of_mem_indentation c hc

/-- What is read back of the children makes their lines. It starts with a line break, which shows nothing
wherever it stands, so `b` is free. -/
theorem childLines_rereadNodes (quote : Quote) (level : Int) :
    ∀ {first : Bool} {ns : List Node}, OnlyElements first ns → ∀ b : Bool,
      childLines quote level b (rereadNodes level first ns ++ [.text ('\n' :: indentation level)]) =
        childLines quote level first ns
  | _, [], _, b => by simp [rereadNodes, childLines, nodeLines, mixedText_layout]
  | first, .element tag attributes children :: ns, h, b => by
    obtain ⟨-, hl, hchildren, hns⟩ := h.element
    have hframed := framed_reread quote (level + 1) [] hl fun hmixed =>
      childLines_rereadNodes quote (level + 1) (hchildren hmixed) true
    simp only [rereadNodes, rereadNode, childLines, nodeLines, List.cons_append, List.nil_append, hframed,
      childLines_rereadNodes quote level hns false, mixedText_layout]
  | _, .text s :: ns, h, b => by
    obtain ⟨hs, hns⟩ := h.text
    have := childLines_rereadNodes quote level hns b
    simpa [childLines, nodeLines, rereadNodes, rereadNode, hs] using this
  | _, .comment body :: ns, h, _ => absurd (by simp) (h.comments body)

/-! ## The whole tree -/

section
variable {root : Element} (hsound : root.node.isSound = true)
include hsound

theorem rereadRoot_nil (level : Int) :
    rereadRoot level [] root = ⟨root.tag, root.attributes,
      rereadContent level root.children (rereadNodes level true root.children)⟩ := by
  simp only [Element.node, isSound_element, properAttributes_iff] at hsound
  obtain ⟨-, ⟨-, hd⟩, -⟩ := hsound
  rw [rereadRoot, show bareAttributes [] = [] from rfl, List.append_nil, firsts_of_distinct hd]

variable (h : ∀ e ∈ root.elements, LaidOut e)
include h

theorem onlyElements_root (hmixed : isMixed root = true) : OnlyElements true root.children := by
  refine (h root (List.mem_cons_self ..)).onlyElements hmixed fun e he => ?_
  have hmem : e ∈ root.elements := List.mem_cons_of_mem _ he
  exact ⟨isSound_of_mem_elements root.node hsound e hmem, h e hmem⟩

/-- **The lines of a tree that is laid out are read as `rereadRoot` tells**, text included. -/
theorem parse_lines_laidOut (hroot : root.tag = rootTag) (quote : Quote) :
    parse (joinLines (lines quote 0 [] root)) = .ok (rereadRoot 0 [] root) := by
  have hproper : root.node.isProper = true ∧ Node.areProper root.children = true := by
    have helement := hsound
    rw [Node.isSound, Bool.and_eq_true] at helement
    obtain ⟨-, -, -, -, hchildren, -⟩ := isSound_element.1 hsound
    exact ⟨helement.1, hchildren⟩
  have hrendering : Rendering false _ _ :=
    rendering_elementText quote 0 hsound (h root (List.mem_cons_self ..))
      (fun hmixed => rendering_childLines quote 0 (onlyElements_root hsound h hmixed)) .nil
  rw [rereadRoot_nil hsound, lines_eq_framed, joinLines_framed]
  refine parse_rendering hroot
    (isProper_reread 0 hproper.1 (areProper_rereadNodes 0 true hproper.2)) ?_
  simpa [indentation, Element.node] using hrendering

/-- What is read back of a tree that is laid out makes the lines of the tree. -/
theorem lines_rereadRoot (quote : Quote) (level : Int) :
    lines quote level [] (rereadRoot level [] root) = lines quote level [] root := by
  rw [rereadRoot_nil hsound, lines_eq_framed, lines_eq_framed]
  exact framed_reread quote level [] (h root (List.mem_cons_self ..)) fun hmixed =>
    childLines_rereadNodes quote level (onlyElements_root hsound h hmixed) true

end

/-- **Printing is stable.** The lines of a tree that was read and is laid out are markup again, and the
tree that is read from them has the same lines. -/
theorem lines_parse_lines {s : List Char} {root : Element} (hp : parse s = .ok root)
    (h : ∀ e ∈ root.elements, LaidOut e) (quote : Quote) :
    ∃ back, parse (joinLines (lines quote 0 [] root)) = .ok back ∧
      lines quote 0 [] back = lines quote 0 [] root := by
  obtain ⟨hroot, hsound⟩ := parse_sound hp
  exact ⟨rereadRoot 0 [] root, parse_lines_laidOut hsound h hroot quote,
    lines_rereadRoot hsound h quote 0⟩

theorem lines_parse_lines_cdata :
    ∃ root back,
      parse "<svg a='\"' b=\"it's\n\"> <PATH>\n<g>\n</g><text> a <![CDATA[b ]]>\n c</text></svg>".toList =
        .ok root ∧
      parse (joinLines (lines .single 0 [] root)) = .ok back ∧
      lines .single 0 [] back = lines .single 0 [] root := by
  obtain ⟨root, hp, hlaid⟩ := exists_parse_of_any
    (s := "<svg a='\"' b=\"it's\n\"> <PATH>\n<g>\n</g><text> a <![CDATA[b ]]>\n c</text></svg>".toList)
    (p := fun root => root.elements.all isLaidOut) (by decide +kernel)
  obtain ⟨back, hback, hlines⟩ := lines_parse_lines hp
    (fun e he => isLaidOut_iff.1 (List.all_eq_true.1 hlaid e he)) .single
  exact ⟨root, back, hp, hback, hlines⟩

end SvgComponent.Jsx
