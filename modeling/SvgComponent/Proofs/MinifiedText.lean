import SvgComponent.Proofs.MixedContent
import SvgComponent.Proofs.TightText
import SvgComponent.Proofs.WrittenSource

/-!
# Text in minified source

The lines of a tree whose text stands alone in its elements are minified one by one. In the line of an
element that holds text, the text is cut off from the tags around it and minified on its own.

* `Paired`, `endsInCode_lines`: the writer puts quotation marks in pairs, so that without others no literal
  reaches over the end of a line.
* `minify_textLine`: what becomes of the line of an element that holds text.
* `forall_mem_lines`: what holds of each kind of line holds of all lines of a tree.
* `bracketed_lines`: lines start and end with a tag or a container.
* `minify_lines_text`: what becomes of the lines of a tree.
-/

namespace SvgComponent.Jsx

open Text Markup Source

/-! ## Quotation marks in pairs -/

/-- Text in which quotation marks are paired, so that it is code behind it again, whatever follows. -/
def Paired (s : List Char) : Prop := ∀ rest, Reading.code.after s rest = .code

theorem Paired.append {s t : List Char} (hs : Paired s) (ht : Paired t) : Paired (s ++ t) :=
  fun rest => by rw [after_append, hs, ht]

theorem Paired.flatMap {α : Type} {f : α → List Char} {xs : List α} (h : ∀ x ∈ xs, Paired (f x)) :
    Paired (xs.flatMap f) := by
  induction xs with
  | nil => exact fun _ => rfl
  | cons x xs ih =>
    rw [List.forall_mem_cons] at h
    exact h.1.append (ih h.2)

theorem paired_of_unquoted {s : List Char} (h : isUnquoted s = true) : Paired s := by
  simp only [isUnquoted, List.all_eq_true, Bool.not_eq_true'] at h
  exact after_of_not_quote h .code

theorem paired_enclose (q : Quote) {v : List Char} (hv : q.char ∉ v) : Paired (q.enclose v) :=
  after_closed (by cases q <;> rfl) hv

theorem paired_container {c : Char} (hc : c ≠ '"') : Paired (container c) := by
  have hinner : Paired (Quote.double.enclose [c]) :=
    paired_enclose .double fun hm => hc (List.mem_singleton.1 hm).symm
  have hopen : Paired ['\x7b'] := paired_of_unquoted rfl
  have hclose : Paired ['\x7d'] := paired_of_unquoted rfl
  exact (hopen.append hinner).append hclose

theorem paired_escapeText {s : List Char} (hs : isUnquoted s = true) : Paired (escapeText s) := by
  refine Paired.flatMap fun c hc => ?_
  split
  · rename_i hspecial
    refine paired_container fun e => ?_
    rw [e] at hspecial
    cases hspecial
  · refine paired_of_unquoted ?_
    rw [isUnquoted, List.all_eq_true] at hs ⊢
    intro d hd
    rw [List.mem_singleton.1 hd]
    rcases mem_spaced hc with rfl | hm
    · decide
    · exact hs c hm

theorem paired_mixedText (first last : Bool) {s : List Char} (hs : isUnquoted s = true) :
    Paired (mixedText first last s) := by
  have hspace : ∀ b : Bool, Paired (if b then container ' ' else []) := by
    intro b
    cases b with
    | false => exact fun _ => rfl
    | true => exact paired_container (by decide)
  rcases mixedText_cases first last s with hm | hm | ⟨a, b, -, hm⟩
  · rw [hm]
    exact hspace false
  · rw [hm]
    exact hspace true
  · rw [hm]
    exact ((hspace a).append (paired_escapeText hs)).append (hspace b)

theorem paired_indentation (level : Int) : Paired (indentation level) := by
  refine paired_of_unquoted (List.all_eq_true.2 fun c hc => ?_)
  rw [mem_indentation hc]
  rfl

theorem paired_formatComment {body : List Char} (hbody : isUnquoted body = true) :
    Paired (formatComment body) := by
  have hguarded : Paired (guardClose (strip body)) := by
    refine paired_of_unquoted ?_
    rw [isUnquoted, List.all_eq_true] at hbody ⊢
    intro c hc
    rcases mem_guardClose hc with rfl | hm
    · decide
    · exact hbody c (mem_of_mem_strip hm)
  unfold formatComment
  split
  · exact paired_of_unquoted (by decide)
  · exact (Paired.append (paired_of_unquoted (by decide)) hguarded).append
      (paired_of_unquoted (by decide))

section
variable {e : Element} (hw : e.WellFormed)
include hw

theorem isUnquoted_tag : isUnquoted e.tag = true := by
  rw [isUnquoted, List.all_eq_true]
  intro c hc
  rw [(isNameChar_facts ((tag_facts hw).2 c hc)).2.1]
  rfl

theorem isUnquoted_endTag : isUnquoted (endTag e.tag) = true := by
  have htag := isUnquoted_tag hw
  rw [isUnquoted] at htag ⊢
  simp only [endTag, List.all_append, List.all_cons, htag, List.all_nil]
  decide

theorem paired_startTag (quote : Quote) : Paired (startTag quote e []) := by
  have hopen : Paired ('<' :: e.tag) := by
    have htag := isUnquoted_tag hw
    refine paired_of_unquoted ?_
    rw [isUnquoted] at htag ⊢
    rw [List.all_cons, htag]
    decide
  have hattribute : ∀ a ∈ e.attributes, Paired (' ' :: formatAttribute quote a) := by
    intro a ha
    obtain ⟨q, hq, hvalue⟩ := quoteAttribute_enclose quote (hw.values a ha)
    have hname : Paired (' ' :: (a.name ++ ['='])) := by
      refine paired_of_unquoted ?_
      rw [isUnquoted, List.all_eq_true]
      intro c hc
      simp only [List.mem_cons, List.mem_append, List.not_mem_nil, or_false] at hc
      rcases hc with rfl | hc | rfl
      · decide
      · obtain ⟨-, hmark⟩ := (hw.names a ha).2 c hc
        simp only [List.mem_cons, List.not_mem_nil, or_false, not_or] at hmark
        simp [isStringQuote, hmark]
      · decide
    have hparts : ' ' :: formatAttribute quote a = (' ' :: (a.name ++ ['='])) ++ q.enclose a.value := by
      simp [formatAttribute, hvalue]
    rw [hparts]
    exact hname.append (paired_enclose q hq)
  refine hopen.append (Paired.flatMap fun part hpart => ?_)
  rw [List.append_nil] at hpart
  obtain ⟨a, ha, rfl⟩ := List.mem_map.1 hpart
  exact hattribute a ha

end

/-! ## The line of an element that holds text -/

section
variable {e : Element} (hw : e.WellFormed)
include hw

theorem minifyFrom_endTag : minifyFrom .code [] (endTag e.tag) = endTag e.tag := by
  have hplain : ∀ c ∈ '<' :: '/' :: e.tag, isBlank c = false ∧ isStringQuote c = false ∧
      isLoose c = false := by
    intro c hc
    simp only [List.mem_cons] at hc
    rcases hc with rfl | rfl | hc
    · decide
    · decide
    · obtain ⟨hb, hq, hl, -⟩ := isNameChar_facts ((tag_facts hw).2 c hc)
      exact ⟨hb, hq, hl⟩
  rw [endTag, minifyFrom_plain .code [] hplain]
  rfl

/-- Text in front of an end tag is read as code where it ends. -/
theorem after_of_endTag (text : List Char) : Reading.code.after text (endTag e.tag) = .code := by
  have hend := isUnquoted_endTag hw
  simp only [isUnquoted, List.all_eq_true, Bool.not_eq_true'] at hend
  have hall : Reading.code.after (text ++ endTag e.tag) [] = .code :=
    after_nil fun mark hmark => by cases hmark
  rwa [after_append, after_of_not_quote hend, List.append_nil] at hall

theorem minifyFrom_escapeText_endTag {s : List Char} (hs : isBlankText s = false) :
    minifyFrom .code [] (escapeText s ++ endTag e.tag) =
      tightened (escapeText s) ++ endTag e.tag := by
  cases hlast : (escapeText s).getLast? with
  | none =>
    rw [List.getLast?_eq_none_iff, escapeText_eq_nil, hs] at hlast
    cases hlast
  | some c =>
    have hb : isBlank c = false := by
      rcases getLast?_escapeText hlast with rfl | ⟨hb, -⟩
      · decide
      · exact hb
    have hafter : Reading.code.after (escapeText s) (endTag e.tag ++ []) = .code := by
      rw [List.append_nil, after_of_endTag hw]
    have hclear : Clear isBlank (endTag e.tag) := (clear_cons _ _ _).2 (by decide)
    have hbrace : (endTag e.tag).head? ≠ some '\x7d' := by simp [endTag]
    rw [minifyFrom_append hlast hafter hb hclear hbrace, minifyFrom_escapeText, minifyFrom_endTag hw]

omit hw in
/-- Written text starts with no blank, and closes no brace. -/
theorem clear_escapeText_append {s : List Char} (hs : isBlankText s = false) (t : List Char) :
    Clear isBlank (escapeText s ++ t) ∧ (escapeText s ++ t).head? ≠ some '\x7d' := by
  obtain ⟨c, u, hu⟩ := List.exists_cons_of_ne_nil fun hn => by
    rw [escapeText_eq_nil.1 hn] at hs
    cases hs
  rw [hu, List.cons_append, clear_cons, List.head?_cons]
  rcases head?_escapeText (s := s) (c := c) (by rw [hu]; rfl) with rfl | ⟨hb, hspecial⟩
  · exact ⟨by decide, by decide⟩
  · refine ⟨hb, fun h => ?_⟩
    cases h
    cases hspecial

/-- **The line of an element that holds text**: the tags and the text are minified as if each stood
alone. -/
theorem minify_textLine (quote : Quote) (level : Int) {s : List Char} (hs : isBlankText s = false) :
    minify (indentation level ++ startTag quote e [] ++ '>' :: escapeText s ++ endTag e.tag) =
      minify (startTag quote e [] ++ ['>']) ++ tightened (escapeText s) ++ endTag e.tag := by
  have hangle : isBlank '>' = false := by decide
  obtain ⟨rest, hstart⟩ : ∃ t, startTag quote e [] ++ ['>'] = '<' :: t := ⟨_, rfl⟩
  have hclear : ∀ t, Clear isBlank ((startTag quote e [] ++ ['>']) ++ t) := fun t => by
    rw [hstart, List.cons_append, clear_cons]
    decide
  have hline : indentation level ++ startTag quote e [] ++ '>' :: escapeText s ++ endTag e.tag =
      indentation level ++ ((startTag quote e [] ++ ['>']) ++ (escapeText s ++ endTag e.tag)) := by
    simp
  have hlast : (indentation level ++ ((startTag quote e [] ++ ['>']) ++
      (escapeText s ++ endTag e.tag))).getLast? = some '>' := by
    have hend : (endTag e.tag).getLast? = some '>' := List.getLast?_concat
    simp only [List.getLast?_append, hend, Option.some_or]
  have hopen : minify (startTag quote e [] ++ ['>']) =
      minifyFrom .code [] (startTag quote e [] ++ ['>']) :=
    minify_eq_minifyFrom (by simpa using hclear []) List.getLast?_concat hangle
  have hafter : Reading.code.after (startTag quote e [] ++ ['>'])
      (escapeText s ++ endTag e.tag ++ []) = .code := by
    rw [after_append, paired_startTag hw]
    rfl
  obtain ⟨htext, hbrace⟩ := clear_escapeText_append hs (endTag e.tag)
  rw [hline, minify_eq_minifyFrom_dropBlanks hangle hlast, List.dropWhile_append_of_pos isBlank_of_mem_indentation,
    (hclear _).dropWhile, minifyFrom_append List.getLast?_concat hafter hangle htext hbrace, hopen,
    minifyFrom_escapeText_endTag hw hs, List.append_assoc]

end

/-! ## The lines of a tree -/

/-- The text of an element as it is written between its tags. -/
def writtenText (e : Element) : List Char := escapeText (e.children.flatMap textContent)

/-- The line of an element that holds text only. -/
def textLine (quote : Quote) (level : Int) (e : Element) : List Char :=
  indentation level ++ startTag quote e [] ++ '>' :: writtenText e ++ endTag e.tag

section
variable {quote : Quote} {P : List Char → Prop} {Q : Element → Prop}

theorem forall_mem_framed {level : Int} {e : Element} {inner : List (List Char)}
    (hinner : isMixed e = true → ∀ l ∈ inner, P l)
    (hopen : ∀ s ∈ [" />".toList, ['>'], '>' :: writtenText e ++ endTag e.tag],
      P (indentation level ++ (startTag quote e [] ++ s)))
    (hclose : P (indentation level ++ endTag e.tag)) : ∀ l ∈ framed quote level [] e inner, P l := by
  intro l hl
  simp only [framed, List.append_assoc] at hl
  split at hl
  · rw [List.mem_singleton.1 hl]
    exact hopen _ (by simp)
  split at hl
  · rw [List.mem_singleton.1 hl]
    exact hopen _ (by simp [writtenText])
  · rename_i htext
    rw [List.cons_append, List.mem_cons, List.mem_append, List.mem_singleton] at hl
    rcases hl with rfl | hl | rfl
    · exact hopen _ (by simp)
    · exact hinner (by simpa [isMixed] using htext) l hl
    · exact hclose

/-- What is shown of the lines of each element, comment and text among other nodes holds of all lines. -/
theorem forall_mem_childLines
    (hframe : ∀ level e inner, Q e → (isMixed e = true → ∀ l ∈ inner, P l) →
      ∀ l ∈ framed quote level [] e inner, P l)
    (hcomment : ∀ level e body, Q e → Node.comment body ∈ e.children →
      P (indentation level ++ indentUnit ++ formatComment body))
    (htext : ∀ level e first last t, Q e → isMixed e = true → Node.text t ∈ e.children →
      mixedText first last t ≠ [] → P (indentation level ++ indentUnit ++ mixedText first last t)) :
    ∀ (level : Int) (first : Bool) (ns : List Node) (e : Element), Q e → isMixed e = true →
      (∀ n ∈ ns, n ∈ e.children) → (∀ e' ∈ Node.elementsOf ns, Q e') →
      ∀ l ∈ childLines quote level first ns, P l
  | level, first, [], e, _, _, _, _, l, hl => by cases hl
  | level, first, .element tag attributes children :: ns, e, he, hmixed, hns, hall, l, hl => by
    simp only [Node.elementsOf, Node.elements, List.cons_append, List.forall_mem_cons,
      List.forall_mem_append] at hall
    obtain ⟨hself, hchildren, hlater⟩ := hall
    rw [childLines, nodeLines] at hl
    rcases List.mem_append.1 hl with hl | hl
    · exact hframe (level + 1) _ _ hself (fun hm => forall_mem_childLines hframe hcomment htext
        (level + 1) true children ⟨tag, attributes, children⟩ hself hm (fun n hn => hn) hchildren) l hl
    · exact forall_mem_childLines hframe hcomment htext level false ns e he hmixed
        (fun n hn => hns n (.tail _ hn)) hlater l hl
  | level, first, .comment body :: ns, e, he, hmixed, hns, hall, l, hl => by
    rw [childLines, nodeLines] at hl
    rcases List.mem_append.1 hl with hl | hl
    · rw [List.mem_singleton.1 hl]
      exact hcomment level e body he (hns _ (.head _))
    · exact forall_mem_childLines hframe hcomment htext level false ns e he hmixed
        (fun n hn => hns n (.tail _ hn)) (by simpa [Node.elementsOf, Node.elements] using hall) l hl
  | level, first, .text t :: ns, e, he, hmixed, hns, hall, l, hl => by
    rw [childLines, nodeLines] at hl
    rcases List.mem_append.1 hl with hl | hl
    · split at hl
      · cases hl
      · rename_i hne
        rw [List.mem_singleton.1 hl]
        exact htext level e first ns.isEmpty t he hmixed (hns _ (.head _)) hne
    · exact forall_mem_childLines hframe hcomment htext level false ns e he hmixed
        (fun n hn => hns n (.tail _ hn)) (by simpa [Node.elementsOf, Node.elements] using hall) l hl

theorem forall_mem_lines
    (hframe : ∀ level e inner, Q e → (isMixed e = true → ∀ l ∈ inner, P l) →
      ∀ l ∈ framed quote level [] e inner, P l)
    (hcomment : ∀ level e body, Q e → Node.comment body ∈ e.children →
      P (indentation level ++ indentUnit ++ formatComment body))
    (htext : ∀ level e first last t, Q e → isMixed e = true → Node.text t ∈ e.children →
      mixedText first last t ≠ [] → P (indentation level ++ indentUnit ++ mixedText first last t))
    (level : Int) {root : Element} (hall : ∀ e ∈ root.elements, Q e) :
    ∀ l ∈ lines quote level [] root, P l := by
  obtain ⟨hself, hchildren⟩ := List.forall_mem_cons.1
    (show ∀ e ∈ root :: Node.elementsOf root.children, Q e from hall)
  rw [lines_eq_framed]
  exact hframe level root _ hself fun hm => forall_mem_childLines hframe hcomment htext level true
    root.children root hself hm (fun n hn => hn) hchildren

end

/-! ## Lines of unquoted text -/

/-- Text or a comment without quotation marks, or an element. -/
def isUnquotedNode : Node → Bool
  | .element _ _ _ => true
  | .text s => isUnquoted s
  | .comment body => isUnquoted body

theorem endsInCode_of_paired {ls : List (List Char)} (h : ∀ l ∈ ls, Paired l) : endsInCode ls = true := by
  induction ls with
  | nil => rfl
  | cons l ls ih =>
    rw [List.forall_mem_cons] at h
    rw [endsInCode, h.1, ih h.2]
    rfl

theorem paired_framed (quote : Quote) (level : Int) {e : Element} (hw : e.WellFormed)
    (he : e.children.all isUnquotedNode = true) {inner : List (List Char)}
    (hinner : isMixed e = true → ∀ l ∈ inner, Paired l) :
    ∀ l ∈ framed quote level [] e inner, Paired l := by
  have hindent := paired_indentation level
  have hend := paired_of_unquoted (isUnquoted_endTag hw)
  have hwritten : Paired (writtenText e) :=
    paired_escapeText (isUnquoted_textContent fun s hs => List.all_eq_true.1 he (.text s) hs)
  have hangle : Paired ['>'] := paired_of_unquoted rfl
  refine forall_mem_framed hinner (fun s hs => hindent.append ((paired_startTag hw quote).append ?_))
    (hindent.append hend)
  simp only [List.mem_cons, List.not_mem_nil, or_false] at hs
  rcases hs with rfl | rfl | rfl
  · exact paired_of_unquoted rfl
  · exact hangle
  · exact (hangle.append hwritten).append hend

/-- **No literal reaches over the end of a line** of a tree without quotation marks in its texts and
comments: the writer itself puts marks in pairs. -/
theorem endsInCode_lines (quote : Quote) (level : Int) {root : Element}
    (hw : ∀ e ∈ root.elements, e.WellFormed)
    (hunquoted : ∀ e ∈ root.elements, e.children.all isUnquotedNode = true) :
    endsInCode (lines quote level [] root) = true := by
  have hunit : ∀ level, Paired (indentation level ++ indentUnit) :=
    fun level => (paired_indentation level).append (paired_of_unquoted rfl)
  refine endsInCode_of_paired (forall_mem_lines
    (Q := fun e => e.WellFormed ∧ e.children.all isUnquotedNode = true)
    (fun level e inner he => paired_framed quote level he.1 he.2) (fun level e body he hbody => ?_)
    (fun level e first last t he _ ht _ => ?_) level fun e he => ⟨hw e he, hunquoted e he⟩)
  · exact (hunit level).append (paired_formatComment (List.all_eq_true.1 he.2 _ hbody))
  · exact (hunit level).append (paired_mixedText first last (List.all_eq_true.1 he.2 _ ht))

/-! ## Lines between brackets -/

/-- A line that starts with a tag or a container, behind its indentation, and ends with one. -/
def Bracketed (l : List Char) : Prop :=
  (∃ c ∈ ['<', '\x7b'], (l.dropWhile isBlank).head? = some c) ∧ EndsClosed l

/-- Whether an element that holds text that is not blank holds nothing but text. -/
def holdsTextAlone (e : Element) : Bool :=
  e.children.all isTextNode || e.children.all fun n => isBlankNode n || !isTextNode n

theorem Bracketed.indented {l : List Char} (h : Bracketed l) {pad : List Char}
    (hpad : ∀ c ∈ pad, c = ' ') : Bracketed (pad ++ l) := by
  have hblank : ∀ c ∈ pad, isBlank c = true := fun c hc => by
    rw [hpad c hc]
    decide
  refine ⟨?_, h.2.append pad⟩
  rw [List.dropWhile_append_of_pos hblank]
  exact h.1

theorem bracketed_container (s : List Char) : Bracketed ('\x7b' :: s ++ ['\x7d']) :=
  ⟨⟨'\x7b', by simp, rfl⟩, '\x7d', by simp, List.getLast?_concat⟩

theorem bracketed_formatComment (body : List Char) : Bracketed (formatComment body) := by
  have hparts : formatComment body =
      '\x7b' :: ("/*".toList ++ commentInside body ++ "*/".toList) ++ ['\x7d'] := by
    simp [formatComment_eq]
  rw [hparts]
  exact bracketed_container _

theorem endsClosed_endTag (tag : List Char) : EndsClosed (endTag tag) :=
  ⟨'>', by simp, List.getLast?_concat⟩

theorem bracketed_framed (quote : Quote) (level : Int) {e : Element} {inner : List (List Char)}
    (hinner : isMixed e = true → ∀ l ∈ inner, Bracketed l) :
    ∀ l ∈ framed quote level [] e inner, Bracketed l := by
  have hopen : ∀ s, EndsClosed s → Bracketed (indentation level ++ (startTag quote e [] ++ s)) :=
    fun s hs => Bracketed.indented ⟨⟨'<', by simp, rfl⟩, hs.append _⟩ fun c => mem_indentation
  refine forall_mem_framed hinner (fun s hs => hopen s ?_)
    (Bracketed.indented ⟨⟨'<', by simp, rfl⟩, endsClosed_endTag e.tag⟩ fun c => mem_indentation)
  simp only [List.mem_cons, List.not_mem_nil, or_false] at hs
  rcases hs with rfl | rfl | rfl
  · exact ⟨'>', by simp, rfl⟩
  · exact ⟨'>', by simp, rfl⟩
  · exact (endsClosed_endTag e.tag).append _

theorem isBlankText_of_mixed {e : Element} (h : holdsTextAlone e = true) (hmixed : isMixed e = true)
    {t : List Char} (ht : Node.text t ∈ e.children) : isBlankText t = true := by
  have htexts : e.children.all isTextNode = false := by simpa [isMixed] using hmixed
  rw [holdsTextAlone, htexts, Bool.false_or, List.all_eq_true] at h
  simpa [isBlankNode, isTextNode] using h _ ht

/-- **Every line of a tree starts and ends with a tag or a container**, if text that shows stands alone in
its elements. -/
theorem bracketed_lines (quote : Quote) (level : Int) {root : Element}
    (halone : ∀ e ∈ root.elements, holdsTextAlone e = true) :
    ∀ l ∈ lines quote level [] root, Bracketed l := by
  refine forall_mem_lines (Q := fun e => holdsTextAlone e = true)
    (fun level e inner _ => bracketed_framed quote level)
    (fun level e body _ _ => (bracketed_formatComment body).indented (mem_indentation_unit level))
    (fun level e first last t he hmixed ht hne => ?_) level halone
  -- blank text makes no line but that of a space
  have hspace : mixedText first last t = container ' ' := by
    rw [mixedText, if_pos (isBlankText_of_mixed he hmixed ht)] at hne ⊢
    split at hne
    · rw [if_pos ‹_›]
    · exact absurd rfl hne
  rw [hspace]
  exact (bracketed_container ['"', ' ', '"']).indented (mem_indentation_unit level)

/-- A minified line starts and ends as the line does behind its indentation. -/
theorem minify_of_bracketed {l : List Char} (h : Bracketed l) :
    (minify l).head? = (l.dropWhile isBlank).head? ∧ (minify l).getLast? = l.getLast? := by
  obtain ⟨⟨c, hc, hhead⟩, hends⟩ := h
  obtain ⟨d, hb, -, -, hlast⟩ := hends.exists_not_blank
  rw [minify_eq_minifyFrom_dropBlanks hb hlast, hlast]
  refine ⟨?_, getLast?_minifyFrom .code [] hb (getLast?_dropBlanks hb hlast)⟩
  obtain ⟨t, ht⟩ := List.head?_eq_some_iff.1 hhead
  have hfacts : isBlank c = false ∧ isStringQuote c = false ∧ c ≠ ';' := by
    simp only [List.mem_cons, List.not_mem_nil, or_false] at hc
    rcases hc with rfl | rfl <;> decide
  rw [ht]
  rcases minifyFrom_keep .code [] hfacts.1 hfacts.2.1 hfacts.2.2 t with hkeep | ⟨-, hkeep⟩
  · rw [hkeep]
    rfl
  · rw [hkeep]
    rfl

/-! ## The text of an element -/

theorem lines_textLine (quote : Quote) (level : Int) {e : Element}
    (htext : e.children.all isTextNode = true) (hblank : e.children.all isBlankNode = false) :
    lines quote level [] e = [textLine quote level e] := by
  rw [lines_eq_framed]
  simp only [framed, hblank, htext, Bool.false_eq_true, if_false, if_true]
  rfl

theorem isBlankText_flatMap {ns : List Node} (htext : ns.all isTextNode = true) :
    isBlankText (ns.flatMap textContent) = ns.all isBlankNode := by
  induction ns with
  | nil => rfl
  | cons n ns ih =>
    rw [List.all_cons, Bool.and_eq_true] at htext
    cases n with
    | element tag attributes children => cases htext.1
    | comment body => cases htext.1
    | text t => simp [← ih htext.2, isBlankText, textContent, isBlankNode]

/-- **Text in minified source.** The lines of a document whose text stands alone in its elements are
minified one by one, with nothing between them, if no literal reaches over the end of a line; none does if
no text or comment holds a quotation mark. Each line starts and ends as it did. Between its tags an element
that holds text has the same text without the blanks next to punctuation that stand outside of literals,
and so the same text exactly if there are none. -/
theorem minify_lines_text {s : List Char} {root : Element} (hp : parse s = .ok root)
    (halone : ∀ e ∈ root.elements, holdsTextAlone e = true) (quote : Quote) (level : Int) :
    ((∀ e ∈ root.elements, e.children.all isUnquotedNode = true) →
        endsInCode (lines quote level [] root) = true) ∧
      (endsInCode (lines quote level [] root) = true →
        minify (joinLines (lines quote level [] root)) =
          (lines quote level [] root).flatMap minify) ∧
      (∀ l ∈ lines quote level [] root, Bracketed l ∧
        (minify l).head? = (l.dropWhile isBlank).head? ∧ (minify l).getLast? = l.getLast?) ∧
      ∀ e ∈ root.elements, e.children.all isTextNode = true → e.children.all isBlankNode = false →
        ∃ level', textLine quote level' e ∈ lines quote level [] root ∧
          minify (textLine quote level' e) =
            minify (startTag quote e [] ++ ['>']) ++ tightened (writtenText e) ++ endTag e.tag ∧
          (tightened (writtenText e) = writtenText e ↔
            ∀ w, .code w ∈ segments (writtenText e) → w.IsChain Tight) := by
  obtain ⟨-, hsound⟩ := parse_sound hp
  have hlines := bracketed_lines quote level halone
  refine ⟨endsInCode_lines quote level fun e he => wellFormed_of_mem_elements hsound he,
    minify_joinLines fun l hl => (hlines l hl).2,
    fun l hl => ⟨hlines l hl, minify_of_bracketed (hlines l hl)⟩, fun e he htext hblank => ?_⟩
  obtain ⟨level', hinside⟩ := lines_infix quote level he
  rw [lines_textLine quote level' htext hblank] at hinside
  have hshows : isBlankText (e.children.flatMap textContent) = false := by
    rw [isBlankText_flatMap htext, hblank]
  exact ⟨level', hinside.subset (List.mem_singleton.2 rfl),
    minify_textLine (wellFormed_of_mem_elements hsound he) quote level' hshows,
    tightened_eq_self_iff _⟩

/-- A comma loses its blanks, and a special character those around its container. -/
theorem minify_lines_text_special :
    ∃ root e level,
      parse "<svg><g a='\"'><b/> <b/></g><text>x , y <![CDATA[<]]> z w</text></svg>".toList =
        .ok root ∧
      e ∈ root.elements ∧ writtenText e = "x , y \x7b\"<\"\x7d z w".toList ∧
      minify (joinLines (lines .double 0 [] root)) = (lines .double 0 [] root).flatMap minify ∧
      textLine .double level e ∈ lines .double 0 [] root ∧
      minify (textLine .double level e) =
        minify (startTag .double e [] ++ ['>']) ++ tightened (writtenText e) ++ endTag e.tag := by
  obtain ⟨root, hp, hroot⟩ := exists_parse_of_any
    (s := "<svg><g a='\"'><b/> <b/></g><text>x , y <![CDATA[<]]> z w</text></svg>".toList)
    (p := fun root => root.elements.all holdsTextAlone &&
      root.elements.all (·.children.all isUnquotedNode) &&
      root.elements.any fun e => e.children.all isTextNode && !e.children.all isBlankNode &&
        writtenText e == "x , y \x7b\"<\"\x7d z w".toList) (by decide +kernel)
  simp only [Bool.and_eq_true, List.any_eq_true, Bool.not_eq_true', beq_iff_eq] at hroot
  obtain ⟨⟨halone, hunquoted⟩, e, he, ⟨htext, hblank⟩, hwritten⟩ := hroot
  obtain ⟨hcode, hall, -, htexts⟩ := minify_lines_text hp (List.all_eq_true.1 halone) .double 0
  obtain ⟨level, hmem, hline, -⟩ := htexts e he htext hblank
  exact ⟨root, e, level, hp, he, hwritten, hall (hcode (List.all_eq_true.1 hunquoted)), hmem, hline⟩

/-- A space behind a comma does not stay. -/
theorem minify_lines_text_comma :
    ∃ root, parse "<svg><text>a, b</text></svg>".toList = .ok root ∧
      root.elements.all holdsTextAlone = true ∧ endsInCode (lines .double 0 [] root) = true ∧
      "  <text>a, b</text>".toList ∈ lines .double 0 [] root ∧
      minify (joinLines (lines .double 0 [] root)) = "<svg><text>a,b</text></svg>".toList := by
  obtain ⟨root, hp, hroot⟩ := exists_parse_of_any (s := "<svg><text>a, b</text></svg>".toList)
    (p := fun root =>
      let ls := framed .double 0 [] root (childLines .double 0 true root.children)
      root.elements.all holdsTextAlone && endsInCode ls &&
        ls.contains "  <text>a, b</text>".toList &&
        strip (minifyFrom .code [] (joinLines ls)) == "<svg><text>a,b</text></svg>".toList)
    (by decide +kernel)
  simp only [← lines_eq_framed, ← minify_eq_strip, Bool.and_eq_true, beq_iff_eq,
    List.contains_eq_mem, decide_eq_true_eq] at hroot
  exact ⟨root, hp, hroot.1.1.1, hroot.1.1.2, hroot.1.2, hroot.2⟩

end SvgComponent.Jsx
