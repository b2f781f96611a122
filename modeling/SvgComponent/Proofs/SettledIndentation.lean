import SvgComponent.Proofs.Indented
import SvgComponent.Proofs.Literals
import SvgComponent.Proofs.Marks
import SvgComponent.Proofs.WritableTree
import SvgComponent.Proofs.WrittenText

/-!
# Indentation that is there already

A component is written with two spaces for each level of its tree. Indenting tells levels from what lines
start and end with, and it finds the same ones: it leaves the source of a component as it is, as long as
nothing in it looks like a line, a tag or a bracket of its own.

* `Settled level ls level'`: the lines `ls` stay as they are, on the way from one level to another.
* `Tidy`: nothing that is written for an element looks like something else.
* `settled_childLines`: the level behind the children of an element is the one before them.
* `indent_generate`: the source of a component stays as it is.
-/

namespace SvgComponent.Text

/-! ## Lines put together and taken apart -/

theorem unifyBreaks_of_not_mem {s : List Char} (h : '\r' ∉ s) : unifyBreaks s = s := by
  rw [unifyBreaks]
  induction s with
  | nil => rfl
  | cons c s ih =>
    simp only [List.mem_cons, not_or] at h
    rw [List.foldr_cons]
    have hs := ih h.2
    generalize s.foldr unifyBreaks.push (false, []) = state at hs ⊢
    simp only [unifyBreaks.push, Ne.symm h.1, if_false, hs]

theorem lines_append_break {l : List Char} (h : '\n' ∉ l) (s : List Char) :
    lines (l ++ '\n' :: s) = l :: lines s := by
  induction l with
  | nil => simp [lines]
  | cons c l ih =>
    simp only [List.mem_cons, not_or] at h
    have hl := ih h.2
    simp only [lines, List.cons_append, List.foldr_cons] at hl ⊢
    rw [hl, if_neg (Ne.symm h.1)]

theorem lines_of_not_mem {l : List Char} (h : '\n' ∉ l) : lines l = [l] := by
  induction l with
  | nil => rfl
  | cons c l ih =>
    simp only [List.mem_cons, not_or] at h
    have hl := ih h.2
    simp only [lines, List.foldr_cons] at hl ⊢
    rw [hl, if_neg (Ne.symm h.1)]

theorem lines_joinLines :
    ∀ {ls : List (List Char)}, ls ≠ [] → (∀ l ∈ ls, '\n' ∉ l) → lines (joinLines ls) = ls
  | [], hne, _ => absurd rfl hne
  | [l], _, h => by
    rw [joinLines, List.intercalate_singleton]
    exact lines_of_not_mem (h l (by simp))
  | l :: m :: ls, _, h => by
    rw [Source.joinLines_cons_cons, lines_append_break (h l (by simp)),
      lines_joinLines (by simp) fun x hx => h x (by simp [hx])]

theorem not_mem_joinLines {c : Char} (hc : c ≠ '\n') {ls : List (List Char)}
    (h : ∀ l ∈ ls, c ∉ l) : c ∉ joinLines ls := by
  cases ls with
  | nil => simp [joinLines, List.intercalate]
  | cons l ls =>
    rw [Jsx.joinLines_cons, Jsx.block]
    simp only [List.mem_append, List.mem_flatMap, List.mem_cons, not_or, not_exists, not_and]
    exact ⟨h l (by simp), fun m hm => ⟨hc, h m (by simp [hm])⟩⟩

/-! ## Searches -/

theorem occursIn_iff {pat s : List Char} : occursIn pat s = true ↔ pat <:+: s := by
  refine ⟨fun h => ?_, Markup.before?_isSome_of_infix⟩
  obtain ⟨b, hb⟩ := Option.isSome_iff_exists.1 h
  obtain ⟨rest, rfl⟩ := eq_of_before?_eq_some hb
  exact ⟨b, rest, rfl⟩

end SvgComponent.Text

namespace SvgComponent.Source

open Text Jsx

/-! ## Lines that stay as they are -/

/-- Lines that indenting by two spaces a level leaves as they are, on the way from one level to
another. -/
structure Settled (level : Nat) (ls : List (List Char)) (level' : Nat) : Prop where
  unbroken : ∀ l ∈ ls, ∀ c ∈ l, isBreak c = false
  kept : ∀ rest,
    indentLines indentUnit level (ls ++ rest) = ls ++ indentLines indentUnit level' rest

theorem settled_nil (level : Nat) : Settled level [] level := ⟨by simp, fun _ => rfl⟩

theorem Settled.append {a b c : Nat} {ls ms : List (List Char)} (hl : Settled a ls b)
    (hm : Settled b ms c) : Settled a (ls ++ ms) c := by
  refine ⟨fun l h => ?_, fun rest => ?_⟩
  · exact (List.mem_append.1 h).elim (hl.unbroken l) (hm.unbroken l)
  · rw [List.append_assoc, hl.kept, hm.kept, List.append_assoc]

theorem settled_empty (level : Nat) : Settled level [[]] level :=
  ⟨by simp, fun rest => by rw [List.singleton_append, indentLines]; rfl⟩

/-- Text that fills a line: it has no break in it, and starts and ends with no blank. -/
structure FillsLine (s : List Char) : Prop where
  unbroken : ∀ c ∈ s, isBreak c = false
  start : ∃ c, s.head? = some c ∧ isBlank c = false
  ending : ∃ c, s.getLast? = some c ∧ isBlank c = false

theorem FillsLine.ne_nil {s : List Char} (h : FillsLine s) : s ≠ [] := by
  rintro rfl
  obtain ⟨c, hc, -⟩ := h.start
  cases hc

theorem FillsLine.strip_eq {s : List Char} (h : FillsLine s) (level : Int) :
    strip (indentation level ++ s) = s := by
  obtain ⟨c, hc, hblank⟩ := h.start
  obtain ⟨d, hd, hend⟩ := h.ending
  rw [strip, stripStart, List.dropWhile_append_of_pos isBlank_of_mem_indentation, dropWhile_of_head? hc hblank,
    stripEnd_of_getLast? hend hd]

/-- A line whose level is told from its content stays as it is. -/
theorem settled_line (level inner : Nat) {content : List Char} (h : FillsLine content)
    (hinner : inner = if closesBlock content then level - 1 else level) :
    Settled level [indentation inner ++ content] (if opensBlock content then inner + 1 else inner) := by
  refine ⟨fun l hl c hc => ?_, fun rest => ?_⟩
  · obtain rfl := List.mem_singleton.1 hl
    rcases List.mem_append.1 hc with hc | hc
    · rw [mem_indentation hc]
      decide
    · exact h.unbroken c hc
  · have hstrip := h.strip_eq inner
    obtain ⟨d, t, rfl⟩ := List.exists_cons_of_ne_nil h.ne_nil
    rw [List.singleton_append, indentLines, hstrip, hinner, indentation, Int.toNat_natCast]
    rfl

section
variable {level : Nat} {content : List Char}

/-- A line that neither opens nor closes a block keeps the level. -/
theorem settled_plain (h : FillsLine content) (hc : closesBlock content = false)
    (ho : opensBlock content = false) : Settled level [indentation level ++ content] level := by
  simpa [ho] using settled_line level level h (by simp [hc])

theorem settled_opening (h : FillsLine content) (hc : closesBlock content = false)
    (ho : opensBlock content = true) :
    Settled level [indentation level ++ content] (level + 1) := by
  simpa [ho] using settled_line level level h (by simp [hc])

theorem settled_closing (h : FillsLine content) (hc : closesBlock content = true)
    (ho : opensBlock content = false) :
    Settled (level + 1) [indentation level ++ content] level := by
  simpa [ho] using settled_line (level + 1) level h (by simp [hc])

end

/-! ## What lines start and end with -/

theorem closesBlock_of_head? {c : Char} {s : List Char} (h : s.head? = some c) (hlt : c ≠ '<')
    (hbrace : c ≠ '\x7d') (hparen : c ≠ ')') : closesBlock s = false := by
  obtain ⟨t, rfl⟩ := List.head?_eq_some_iff.1 h
  simp [closesBlock, List.isPrefixOf, Ne.symm hlt, Ne.symm hbrace, Ne.symm hparen]

theorem isSuffixOf_singleton {c : Char} {s : List Char} :
    [c].isSuffixOf s = true ↔ s.getLast? = some c := by
  rw [List.isSuffixOf_iff_suffix, List.getLast?_eq_some_iff]
  exact ⟨fun ⟨t, ht⟩ => ⟨t, ht.symm⟩, fun ⟨t, ht⟩ => ⟨t, ht.symm⟩⟩

theorem opensBlock_of_head? {c : Char} {s : List Char} (h : s.head? = some c) (hlt : c ≠ '<') :
    opensBlock s = true ↔ s.getLast? = some '\x7b' ∨ s.getLast? = some '(' := by
  obtain ⟨t, rfl⟩ := List.head?_eq_some_iff.1 h
  rw [opensBlock, if_neg (by simp [Ne.symm hlt]), Bool.or_eq_true, isSuffixOf_singleton,
    isSuffixOf_singleton]

/-- A line that starts with a start tag opens a block unless the tag closes itself or a close tag
follows. -/
theorem opensBlock_startTag {c : Char} (hc : c ≠ '/') (s : List Char) :
    closesBlock ('<' :: c :: s) = false ∧
      (opensBlock ('<' :: c :: s) = true ↔
        ¬['/', '>'] <:+ '<' :: c :: s ∧ ¬['<', '/'] <:+: '<' :: c :: s) := by
  refine ⟨by simp [closesBlock, List.isPrefixOf, Ne.symm hc], ?_⟩
  rw [opensBlock, if_pos (by simp [List.isPrefixOf, Ne.symm hc]), Bool.and_eq_true, Bool.not_eq_true',
    Bool.not_eq_true', Bool.eq_false_iff, Bool.eq_false_iff, ne_eq, ne_eq,
    List.isSuffixOf_iff_suffix, occursIn_iff]

end SvgComponent.Source

namespace SvgComponent.Jsx

open Text Markup Source

/-! ## Elements whose lines look like what they are -/

/-- Nothing that is written for an element looks like the end of a line, a close tag or a bracket that
it is not. -/
structure Tidy (e : Element) : Prop where
  values : ∀ a ∈ e.attributes, '\n' ∉ a.value ∧ '\r' ∉ a.value ∧ ¬"</".toList <:+: a.value
  comments : ∀ body, .comment body ∈ e.children → '\n' ∉ body ∧ '\r' ∉ body
  texts : isMixed e = true → ∀ line ∈ textLines true e.children,
    line.head? ≠ some ')' ∧ line.getLast? ≠ some '('

/-- The check that decides whether an element is tidy. -/
def isTidy (e : Element) : Bool :=
  e.attributes.all (fun a =>
    !a.value.contains '\n' && !a.value.contains '\r' && !occursIn "</".toList a.value) &&
  e.children.all (fun
    | .comment body => !body.contains '\n' && !body.contains '\r'
    | _ => true) &&
  (!isMixed e || (textLines true e.children).all fun line =>
    line.head? != some ')' && line.getLast? != some '(')

theorem isTidy_iff {e : Element} : isTidy e = true ↔ Tidy e := by
  have hcomments : (∀ n ∈ e.children, (match n with
        | .comment body => !body.contains '\n' && !body.contains '\r'
        | _ => true) = true) ↔
      ∀ body, .comment body ∈ e.children → '\n' ∉ body ∧ '\r' ∉ body := by
    refine ⟨fun h body hb => by simpa using h _ hb, fun h n hn => ?_⟩
    split
    · simpa using h _ hn
    · rfl
  rw [isTidy, Bool.and_eq_true, Bool.and_eq_true, List.all_eq_true, List.all_eq_true, hcomments]
  simp only [Bool.and_eq_true, Bool.or_eq_true, Bool.not_eq_true', Bool.eq_false_iff, ne_eq,
    occursIn_iff, List.contains_iff_mem, List.all_eq_true, bne_iff_ne]
  refine ⟨fun ⟨⟨hv, hc⟩, ht⟩ => ⟨fun a ha => ?_, hc, fun hm => ?_⟩,
    fun h => ⟨⟨fun a ha => ?_, h.comments⟩, ?_⟩⟩
  · exact ⟨(hv a ha).1.1, (hv a ha).1.2, (hv a ha).2⟩
  · exact ht.resolve_left (absurd hm)
  · obtain ⟨hn, hr, hclose⟩ := h.values a ha
    exact ⟨⟨hn, hr⟩, hclose⟩
  · exact or_iff_not_imp_left.2 fun hm => h.texts (not_not.1 hm)

theorem isBreak_eq_false {c : Char} (hn : c ≠ '\n') (hr : c ≠ '\r') : isBreak c = false := by
  simp [isBreak, hn, hr]

/-! ## Start tags -/

/-- Text that can stand in a start tag: it has no break and no `</` in it, and ends with nothing that
could make one or close the tag. -/
structure TagPart (s : List Char) : Prop where
  unbroken : ∀ c ∈ s, isBreak c = false
  unclosed : ¬['<', '/'] <:+: s
  ending : ∃ c, s.getLast? = some c ∧ c ≠ '<' ∧ c ≠ '/'

theorem TagPart.append {a b : List Char} (ha : TagPart a) (hb : TagPart b) : TagPart (a ++ b) := by
  obtain ⟨c, hc, hlt, -⟩ := ha.ending
  obtain ⟨d, hd, hend⟩ := hb.ending
  refine ⟨fun x hx => ?_, ?_, d, ?_, hend⟩
  · exact (List.mem_append.1 hx).elim (ha.unbroken x) (hb.unbroken x)
  · refine not_pair_append ha.unclosed hb.unclosed (.inl ?_)
    rw [hc]
    simpa using hlt
  · rw [List.getLast?_append, hd]
    rfl

theorem TagPart.flatMap {a : List Char} (ha : TagPart a) {parts : List (List Char)}
    (h : ∀ p ∈ parts, TagPart (' ' :: p)) : TagPart (a ++ parts.flatMap (' ' :: ·)) := by
  induction parts generalizing a with
  | nil => simpa using ha
  | cons p parts ih =>
    rw [List.flatMap_cons, ← List.append_assoc]
    exact ih (ha.append (h p (by simp))) fun q hq => h q (by simp [hq])

theorem isNameChar_of_mem_wellFormed {e : Element} (h : e.WellFormed) {c : Char} (hc : c ∈ e.tag) :
    isNameChar c = true := by
  obtain ⟨d, s, he, hd, hs⟩ := h.tag
  rw [he] at hc
  rcases List.mem_cons.1 hc with rfl | hc
  · exact isNameChar_of_isNameStart hd
  · exact hs c hc

theorem tagPart_tag {e : Element} (h : e.WellFormed) : TagPart ('<' :: e.tag) := by
  have hname : ∀ c ∈ e.tag, ∀ d, isNameChar d = false → c ≠ d := by
    rintro c hc d hd rfl
    rw [isNameChar_of_mem_wellFormed h hc] at hd
    cases hd
  obtain ⟨c, s, he, -, -⟩ := h.tag
  refine ⟨fun x hx => ?_, ?_, ?_⟩
  · rcases List.mem_cons.1 hx with rfl | hx
    · decide
    · exact isBreak_eq_false (hname x hx _ (by decide)) (hname x hx _ (by decide))
  · rw [List.infix_cons_iff, not_or]
    refine ⟨fun hp => ?_, not_pair_of_not_mem fun hm => hname _ hm _ (by decide) rfl⟩
    obtain ⟨-, t, ht⟩ := List.cons_prefix_cons.1 hp
    exact hname '/' (by rw [← ht]; simp) '/' (by decide) rfl
  · have hne : e.tag ≠ [] := by simp [he]
    have hlast := List.getLast_mem hne
    refine ⟨e.tag.getLast hne, ?_, hname _ hlast _ (by decide), hname _ hlast _ (by decide)⟩
    rw [List.getLast?_cons, List.getLast?_eq_getLast_of_ne_nil hne]
    rfl

/-- A name behind a space, with more behind it that is no part of a value. -/
theorem tagPart_name {name : List Char} (ending : List Char) {d : Char}
    (hname : ∀ c ∈ name, isBlank c = false ∧ c ∉ ['=', '/', '>', '"', '\'', '<'])
    (hend : ∀ c ∈ ending, isBreak c = false ∧ c ≠ '<')
    (hlast : (name ++ ending).getLast? = some d) (hd : d ≠ '/') : TagPart (' ' :: (name ++ ending)) := by
  have hbreak : ∀ c, isBlank c = false → isBreak c = false := by
    intro c hc
    refine isBreak_eq_false ?_ ?_ <;>
    · rintro rfl
      cases hc
  have hlt : '<' ∉ ' ' :: (name ++ ending) := by
    simp only [List.mem_cons, List.mem_append, not_or]
    exact ⟨by decide, fun hm => (hname _ hm).2 (by simp), fun hm => (hend _ hm).2 rfl⟩
  refine ⟨fun c hc => ?_, not_pair_of_not_mem hlt, d, ?_, ?_, hd⟩
  · rcases List.mem_cons.1 hc with rfl | hc
    · decide
    · exact (List.mem_append.1 hc).elim (fun hm => hbreak c (hname c hm).1) fun hm => (hend c hm).1
  · rw [List.getLast?_cons, hlast]
    rfl
  · rintro rfl
    exact hlt (List.mem_cons_of_mem _ (List.mem_of_getLast? hlast))

theorem tagPart_attribute (quote : Quote) {e : Element} (hw : e.WellFormed) (ht : Tidy e)
    {a : Attribute} (ha : a ∈ e.attributes) : TagPart (' ' :: formatAttribute quote a) := by
  obtain ⟨q, -, hq⟩ := quoteAttribute_enclose quote (hw.values a ha)
  obtain ⟨hn, hr, hclose⟩ := ht.values a ha
  have hchar : isBreak q.char = false ∧ q.char ≠ '<' ∧ q.char ≠ '/' := by cases q <;> decide
  have hopen : TagPart (' ' :: (a.name ++ ['=', q.char])) :=
    tagPart_name ['=', q.char] (hw.names a ha).2
      (by simp [hchar.1, hchar.2.1, show isBreak '=' = false by decide]) (by simp) hchar.2.2
  have hsplit : ' ' :: formatAttribute quote a =
      (' ' :: (a.name ++ ['=', q.char])) ++ (a.value ++ [q.char]) := by
    simp [formatAttribute, hq, Quote.enclose]
  rw [hsplit]
  refine hopen.append ⟨fun c hc => ?_, ?_, q.char, by simp, hchar.2⟩
  · rcases List.mem_append.1 hc with hc | hc
    · refine isBreak_eq_false ?_ ?_ <;>
      · rintro rfl
        contradiction
    · rw [List.mem_singleton.1 hc]
      exact hchar.1
  · exact not_pair_append hclose (not_pair_of_not_mem (by simpa using Ne.symm hchar.2.1))
      (.inr (by simpa using hchar.2.2))

theorem tagPart_extra {x : List Char} (h : isAttributeName x = true) : TagPart (' ' :: x) := by
  simp only [isAttributeName, Bool.and_eq_true, Bool.not_eq_true', List.isEmpty_eq_false_iff,
    List.all_eq_true] at h
  have hname : ∀ c ∈ x, isBlank c = false ∧ c ∉ ['=', '/', '>', '"', '\'', '<'] := by
    intro c hc
    obtain ⟨hb, hne⟩ := isAttributeChar_iff.1 (h.2 c hc)
    exact ⟨hb, by simpa using hne⟩
  have hlast := hname _ (List.getLast_mem h.1)
  have hpart := tagPart_name [] hname (by simp)
    (by rw [List.append_nil, List.getLast?_eq_getLast_of_ne_nil h.1]) fun he => hlast.2 (by simp [he])
  rwa [List.append_nil] at hpart

theorem tagPart_startTag (quote : Quote) {e : Element} (hw : e.WellFormed) (ht : Tidy e)
    {extra : List (List Char)} (hx : ∀ x ∈ extra, isAttributeName x = true) :
    TagPart (startTag quote e extra) := by
  refine (tagPart_tag hw).flatMap fun p hp => ?_
  rcases List.mem_append.1 hp with hp | hp
  · obtain ⟨a, ha, rfl⟩ := List.mem_map.1 hp
    exact tagPart_attribute quote hw ht ha
  · exact tagPart_extra (hx p hp)

theorem exists_startTag (quote : Quote) {e : Element} (hw : e.WellFormed) (extra : List (List Char)) :
    ∃ c s, c ≠ '/' ∧ startTag quote e extra = '<' :: c :: s := by
  obtain ⟨c, s, he, hc, -⟩ := hw.tag
  refine ⟨c, s ++ (e.attributes.map (formatAttribute quote) ++ extra).flatMap (' ' :: ·), ?_,
    by simp [startTag, he]⟩
  rintro rfl
  rw [isNameStart_slash] at hc
  cases hc

/-! ## The lines of a tree -/

section
variable (quote : Quote) {level : Nat} {e : Element} {extra : List (List Char)} (hw : e.WellFormed)
  (ht : Tidy e) (hx : ∀ x ∈ extra, isAttributeName x = true)
include hw ht hx

/-- A line that starts with a start tag. -/
theorem fillsLine_startTag (rest : List Char) {d : Char} (hr : ∀ c ∈ rest, isBreak c = false)
    (hlast : rest.getLast? = some d) (hd : isBlank d = false) :
    FillsLine (startTag quote e extra ++ rest) := by
  obtain ⟨c, s, -, hs⟩ := exists_startTag quote hw extra
  refine ⟨fun x hm => ?_, ⟨'<', by simp [hs], by decide⟩, d, ?_, hd⟩
  · exact (List.mem_append.1 hm).elim ((tagPart_startTag quote hw ht hx).unbroken x) (hr x)
  · rw [List.getLast?_append, hlast]
    rfl

theorem settled_selfClosed :
    Settled level [indentation level ++ startTag quote e extra ++ " />".toList] level := by
  obtain ⟨c, s, hc, hs⟩ := exists_startTag quote hw extra
  have hline := fillsLine_startTag quote hw ht hx " />".toList
    (forall_mem_of_all (by decide)) rfl (by decide)
  have hsuffix : ['/', '>'] <:+ startTag quote e extra ++ " />".toList :=
    ⟨startTag quote e extra ++ [' '], by simp⟩
  rw [List.append_assoc]
  rw [hs, List.cons_append, List.cons_append] at hline hsuffix ⊢
  obtain ⟨hcloses, hopens⟩ := opensBlock_startTag hc (s ++ " />".toList)
  exact settled_plain hline hcloses (Bool.eq_false_iff.2 fun h => (hopens.1 h).1 hsuffix)

theorem settled_opened :
    Settled level [indentation level ++ startTag quote e extra ++ ['>']] (level + 1) := by
  obtain ⟨c, s, hc, hs⟩ := exists_startTag quote hw extra
  have hpart := tagPart_startTag quote hw ht hx
  obtain ⟨d, hlast, hlt, hslash⟩ := hpart.ending
  have hline := fillsLine_startTag quote hw ht hx ['>'] (forall_mem_of_all (by decide)) rfl
    (by decide)
  have hsuffix : ¬['/', '>'] <:+ startTag quote e extra ++ ['>'] := by
    rintro ⟨t, h⟩
    have hcancel : t ++ ['/'] = startTag quote e extra :=
      (List.append_left_inj ['>']).1 (by simpa using h)
    rw [← hcancel, List.getLast?_concat] at hlast
    exact hslash (Option.some.inj hlast).symm
  have hinfix : ¬['<', '/'] <:+: startTag quote e extra ++ ['>'] :=
    not_pair_append hpart.unclosed (not_pair_of_not_mem (by decide)) (.inr (by decide))
  rw [List.append_assoc]
  rw [hs, List.cons_append, List.cons_append] at hline hsuffix hinfix ⊢
  obtain ⟨hcloses, hopens⟩ := opensBlock_startTag hc (s ++ ['>'])
  exact settled_opening hline hcloses (hopens.2 ⟨hsuffix, hinfix⟩)

omit ht hx in
theorem unbroken_endTag : ∀ c ∈ endTag e.tag, isBreak c = false := by
  intro c hc
  simp only [endTag, List.cons_append, List.mem_cons, List.mem_append, List.not_mem_nil,
    or_false] at hc
  rcases hc with rfl | rfl | hc | rfl
  · decide
  · decide
  · have hname := isNameChar_of_mem_wellFormed hw hc
    refine isBreak_eq_false ?_ ?_ <;>
    · rintro rfl
      revert hname
      decide
  · decide

theorem settled_inline (text : List Char) :
    Settled level [indentation level ++ startTag quote e extra ++ '>' :: escapeText text ++
      endTag e.tag] level := by
  obtain ⟨c, s, hc, hs⟩ := exists_startTag quote hw extra
  have hunbroken : ∀ c ∈ '>' :: (escapeText text ++ endTag e.tag), isBreak c = false := by
    intro c hm
    simp only [List.mem_cons, List.mem_append] at hm
    rcases hm with rfl | hm | hm
    · decide
    · rcases mem_escapeText hm with rfl | hb
      · decide
      · refine isBreak_eq_false ?_ ?_ <;>
        · rintro rfl
          cases hb
    · exact unbroken_endTag hw c hm
  have hlast : ('>' :: (escapeText text ++ endTag e.tag)).getLast? = some '>' := by
    rw [List.getLast?_cons, endTag, ← List.append_assoc, List.getLast?_concat]
    rfl
  have hline := fillsLine_startTag quote hw ht hx _ hunbroken hlast (by decide)
  have hinfix : ['<', '/'] <:+: startTag quote e extra ++ '>' :: (escapeText text ++ endTag e.tag) :=
    ⟨startTag quote e extra ++ '>' :: escapeText text, e.tag ++ ['>'], by simp [endTag]⟩
  rw [List.append_assoc, List.append_assoc, List.cons_append]
  rw [hs, List.cons_append, List.cons_append] at hline hinfix ⊢
  obtain ⟨hcloses, hopens⟩ := opensBlock_startTag hc (s ++ '>' :: (escapeText text ++ endTag e.tag))
  exact settled_plain hline hcloses (Bool.eq_false_iff.2 fun h => (hopens.1 h).2 hinfix)

omit ht hx in
theorem settled_endTag : Settled (level + 1) [indentation level ++ endTag e.tag] level := by
  have hlast : (endTag e.tag).getLast? = some '>' := by rw [endTag, List.getLast?_concat]
  refine settled_closing ⟨unbroken_endTag hw, ⟨'<', rfl, by decide⟩, '>', hlast, by decide⟩ rfl ?_
  have hsuffix : ∀ c, c ≠ '>' → [c].isSuffixOf (endTag e.tag) = false := by
    intro c hc
    rw [Bool.eq_false_iff, ne_eq, isSuffixOf_singleton, hlast]
    simpa using Ne.symm hc
  rw [opensBlock, if_neg (by simp [endTag, List.isPrefixOf]), hsuffix _ (by decide),
    hsuffix _ (by decide)]
  rfl

/-- **The level behind an element is the one before it**, if that holds of its children. -/
theorem settled_framed {inner : List (List Char)}
    (hi : isMixed e = true → Settled (level + 1) inner (level + 1)) :
    Settled level (framed quote level extra e inner) level := by
  rw [framed]
  split
  · exact settled_selfClosed quote hw ht hx
  split
  · exact settled_inline quote hw ht hx _
  · rename_i hmixed
    have hinner := hi (by simpa [isMixed] using hmixed)
    rw [← List.singleton_append]
    exact ((settled_opened quote hw ht hx).append hinner).append (settled_endTag hw)

end

theorem indentation_succ (level : Nat) :
    indentation level ++ indentUnit = indentation ((level + 1 : Nat) : Int) := by
  simp [indentation, List.replicate_succ']

theorem settled_comment {level : Nat} {body : List Char} (hn : '\n' ∉ body) (hr : '\r' ∉ body) :
    Settled level [indentation level ++ formatComment body] level := by
  have hbody : ∀ c ∈ guardClose (strip body), isBreak c = false := by
    intro c hc
    rcases mem_guardClose hc with rfl | hc
    · decide
    · have hmem := mem_of_mem_strip hc
      refine isBreak_eq_false ?_ ?_ <;>
      · rintro rfl
        contradiction
  have hunbroken : ∀ c ∈ formatComment body, isBreak c = false := by
    rw [formatComment]
    split
    · exact forall_mem_of_all (by decide)
    · intro c hc
      rcases List.mem_append.1 hc with hc | hc
      · rcases List.mem_append.1 hc with hc | hc
        · exact forall_mem_of_all (p := (isBreak · = false)) (by decide) c hc
        · exact hbody c hc
      · exact forall_mem_of_all (p := (isBreak · = false)) (by decide) c hc
  have hhead : (formatComment body).head? = some '\x7b' := by
    rw [formatComment]
    split <;> rfl
  have hlast : (formatComment body).getLast? = some '\x7d' := by
    rw [formatComment]
    split
    · rfl
    · rw [List.getLast?_append]
      rfl
  refine settled_plain ⟨hunbroken, ⟨_, hhead, by decide⟩, _, hlast, by decide⟩
    (closesBlock_of_head? hhead (by decide) (by decide) (by decide)) (Bool.eq_false_iff.2 fun h => ?_)
  rw [opensBlock_of_head? hhead (by decide), hlast] at h
  revert h
  decide

theorem settled_text {level : Nat} {first last : Bool} {s : List Char}
    (hne : mixedText first last s ≠ []) (hstart : (mixedText first last s).head? ≠ some ')')
    (hend : (mixedText first last s).getLast? ≠ some '(') :
    Settled level [indentation level ++ mixedText first last s] level := by
  have hunbroken : ∀ c ∈ mixedText first last s, isBreak c = false := by
    intro c hc
    rcases mem_mixedText hc with rfl | hb
    · decide
    · refine isBreak_eq_false ?_ ?_ <;>
      · rintro rfl
        cases hb
  obtain ⟨c, hc⟩ : ∃ c, (mixedText first last s).head? = some c := ⟨_, List.head?_eq_some_head hne⟩
  obtain ⟨d, hd⟩ : ∃ d, (mixedText first last s).getLast? = some d :=
    ⟨_, List.getLast?_eq_getLast_of_ne_nil hne⟩
  have hcblank : isBlank c = false ∧ c ≠ '<' ∧ c ≠ '\x7d' := by
    rcases head?_mixedText hc with rfl | ⟨hb, hspecial⟩
    · decide
    · refine ⟨hb, ?_, ?_⟩ <;>
      · rintro rfl
        cases hspecial
  have hdblank : isBlank d = false ∧ d ≠ '\x7b' := by
    rcases getLast?_mixedText hd with rfl | ⟨hb, hspecial⟩
    · decide
    · refine ⟨hb, ?_⟩
      rintro rfl
      cases hspecial
  refine settled_plain ⟨hunbroken, ⟨c, hc, hcblank.1⟩, d, hd, hdblank.1⟩
    (closesBlock_of_head? hc hcblank.2.1 hcblank.2.2 fun h => hstart (h ▸ hc))
    (Bool.eq_false_iff.2 fun h => ?_)
  rcases (opensBlock_of_head? hc hcblank.2.1).1 h with h | h
  · rw [hd] at h
    exact hdblank.2 (Option.some.inj h)
  · exact hend h

/-- **The level behind the children of an element is the one before them.** -/
theorem settled_childLines (quote : Quote) :
    ∀ (level : Nat) (first : Bool) (ns : List Node),
      (∀ e ∈ Node.elementsOf ns, e.WellFormed ∧ Tidy e) →
      (∀ body, .comment body ∈ ns → '\n' ∉ body ∧ '\r' ∉ body) →
      (∀ line ∈ textLines first ns, line.head? ≠ some ')' ∧ line.getLast? ≠ some '(') →
      Settled (level + 1) (childLines quote level first ns) (level + 1)
  | level, first, [], _, _, _ => settled_nil _
  | level, first, .element tag attributes children :: ns, he, hc, ht => by
    obtain ⟨hw, htidy⟩ := he ⟨tag, attributes, children⟩ (by simp [Node.elementsOf, Node.elements])
    have hinner := settled_childLines quote (level + 1) true children
      (fun e hm => he e (by simp [Node.elementsOf, Node.elements, hm])) htidy.comments
    have hframed : Settled (level + 1) (framed quote ((level : Int) + 1) []
        ⟨tag, attributes, children⟩ (childLines quote ((level : Int) + 1) true children)) (level + 1) :=
      settled_framed quote hw htidy (by simp) fun hmixed => hinner (htidy.texts hmixed)
    have hrest := settled_childLines quote level false ns
      (fun e hm => he e (by simp [Node.elementsOf, hm])) (fun body hm => hc body (by simp [hm])) ht
    rw [childLines, nodeLines]
    exact hframed.append hrest
  | level, first, .comment body :: ns, he, hc, ht => by
    obtain ⟨hn, hr⟩ := hc body (by simp)
    have hrest := settled_childLines quote level false ns
      (fun e hm => he e (by simpa [Node.elementsOf, Node.elements] using hm))
      (fun body hm => hc body (by simp [hm])) ht
    rw [childLines, nodeLines, indentation_succ]
    exact (settled_comment hn hr).append hrest
  | level, first, .text s :: ns, he, hc, ht => by
    obtain ⟨hstart, hend⟩ := ht (mixedText first ns.isEmpty s) (by simp [textLines])
    have hrest := settled_childLines quote level false ns
      (fun e hm => he e (by simpa [Node.elementsOf, Node.elements] using hm))
      (fun body hm => hc body (by simp [hm])) fun line hl => ht line (by simp [textLines, hl])
    rw [childLines, nodeLines]
    split
    · exact hrest
    · rename_i hne
      rw [indentation_succ]
      exact (settled_text (fun h => hne h) hstart hend).append hrest

/-- **Indenting leaves the lines of a tree as they are**, and the level behind them is the one before. -/
theorem settled_lines (quote : Quote) (level : Nat) {root : Element}
    (h : ∀ e ∈ root.elements, e.WellFormed ∧ Tidy e) {extra : List (List Char)}
    (hx : ∀ x ∈ extra, isAttributeName x = true) :
    Settled level (lines quote level extra root) level := by
  obtain ⟨hw, ht⟩ := h root (by simp [Element.elements, Element.node, Node.elements])
  have hinner := settled_childLines quote level true root.children
    (fun e hm => h e (by simp [Element.elements, Element.node, Node.elements, hm])) ht.comments
  rw [lines_eq_framed]
  exact settled_framed quote hw ht hx fun hmixed => hinner (ht.texts hmixed)

end SvgComponent.Jsx

namespace SvgComponent.Component

open Text Markup Jsx Settings Source

/-! ## The lines of a component -/

/-- The start of the export statement. -/
def exportHead (name : List Char) (o : Options) : List Char :=
  match o.exportStyle with
  | .default => "export default ".toList
  | .named => "const ".toList ++ name ++ " = ".toList
  | .const => "export const ".toList ++ exportName name o ++ " = ".toList

/-- The lines before the tree. -/
def frontLines (name : List Char) (o : Options) : List (List Char) :=
  (imports o).flatMap ([·, []]) ++
    [exportHead name o ++ (functionHead o ++ parameter o ++ ") => \x7b".toList),
      indentUnit ++ "return (".toList]

/-- The lines behind the tree. -/
def backLines (name : List Char) (o : Options) : List (List Char) :=
  [indentUnit ++ ");".toList, "\x7d".toList ++ (if o.memo then [')'] else []) ++ [';']] ++
    match o.exportStyle with
    | .named =>
      [[], "export \x7b ".toList ++
        (if exportName name o = name then name else name ++ " as ".toList ++ exportName name o) ++
        " \x7d;".toList]
    | _ => []

theorem joinLines_frontLines (name : List Char) (o : Options) (rest : List (List Char)) :
    joinLines (frontLines name o ++ rest) =
      sourceHead name o ++ functionHead o ++ parameter o ++
        (") => \x7b\n  return (".toList ++ block rest) := by
  have hhead : sourceHead name o =
      (imports o).flatMap (· ++ "\n\n".toList) ++ exportHead name o := rfl
  rw [hhead, frontLines]
  rcases imports_eq o with h | ⟨line, h⟩ <;> simp [h, joinLines_cons, block, indentUnit]

theorem block_backLines (name : List Char) (o : Options) :
    block (backLines name o) = functionTail o ++ sourceTail name o := by
  unfold backLines functionTail sourceTail
  cases o.memo <;> cases o.exportStyle <;> simp [block, indentUnit]

theorem sourceText_eq_joinLines (root : Element) (name : List Char) (o : Options) :
    sourceText root name o =
      joinLines (frontLines name o ++ (lines o.quotes 2 (spread o) root ++ backLines name o)) := by
  have htree : block (lines o.quotes 2 (spread o) root) =
      '\n' :: indentation 2 ++ rootText root o := by
    rw [lines_eq_framed, block_framed]
    rfl
  have hhead : bodyHead = ") => \x7b\n  return (".toList ++ '\n' :: indentation 2 := by decide
  rw [joinLines_frontLines, block_append, block_backLines, htree, sourceText, hhead]
  simp only [List.append_assoc]

/-- Text put together from two parts fills a line. -/
theorem fillsLine_append {a b : List Char} {c d : Char} (ha : ∀ x ∈ a, isBreak x = false)
    (hb : ∀ x ∈ b, isBreak x = false) (hstart : a.head? = some c) (hc : isBlank c = false)
    (hend : b.getLast? = some d) (hd : isBlank d = false) : FillsLine (a ++ b) := by
  refine ⟨fun x hx => (List.mem_append.1 hx).elim (ha x) (hb x), ⟨c, ?_, hc⟩, d, ?_, hd⟩
  · rw [List.head?_append, hstart]
    rfl
  · rw [List.getLast?_append, hend]
    rfl

theorem settled_imports (o : Options) : Settled 0 ((imports o).flatMap ([·, []])) 0 := by
  have hline : ∀ line ∈ imports o, Settled 0 [indentation 0 ++ line] 0 := by
    intro line hl
    rw [imports] at hl
    split at hl
    · cases hl
    revert hl
    cases o.typescript <;> cases o.memo <;> cases o.quotes <;> intro hl <;>
      rcases hl with _ | ⟨_, ⟨⟩⟩ <;>
    · exact settled_plain ⟨forall_mem_of_all (by decide), ⟨'i', rfl, by decide⟩, ';', by decide, by decide⟩
        (by decide) (by decide)
  rcases imports_eq o with h | ⟨line, h⟩
  · simpa [h] using settled_nil 0
  · rw [h]
    exact (hline line (by simp [h])).append (settled_empty 0)

section
variable {name : List Char} {o : Options} (hname : ∀ c ∈ name, isBreak c = false)
  (hexport : ∀ c ∈ exportName name o, isBreak c = false)
include hname hexport

/-- The statement of the component starts on one line. -/
theorem exportHead_facts : (∀ c ∈ exportHead name o, isBreak c = false) ∧
    ∃ c, (exportHead name o).head? = some c ∧ (c = 'e' ∨ c = 'c') := by
  have haround : ∀ {a m b : List Char}, (∀ c ∈ a, isBreak c = false) → (∀ c ∈ m, isBreak c = false) →
      (∀ c ∈ b, isBreak c = false) → ∀ c ∈ a ++ m ++ b, isBreak c = false := by
    intro a m b ha hm hb c hc
    rcases List.mem_append.1 hc with hc | hc
    · exact (List.mem_append.1 hc).elim (ha c) (hm c)
    · exact hb c hc
  unfold exportHead
  split
  · exact ⟨forall_mem_of_all (by decide), 'e', rfl, .inl rfl⟩
  · exact ⟨haround (forall_mem_of_all (by decide)) hname (forall_mem_of_all (by decide)), 'c', rfl,
      .inr rfl⟩
  · exact ⟨haround (forall_mem_of_all (by decide)) hexport (forall_mem_of_all (by decide)), 'e', rfl,
      .inl rfl⟩

theorem settled_frontLines : Settled 0 (frontLines name o) 2 := by
  obtain ⟨hunbroken, c, hhead, hc⟩ := exportHead_facts hname hexport
  have hfixed : (∀ x ∈ functionHead o ++ parameter o ++ ") => \x7b".toList, isBreak x = false) ∧
      (functionHead o ++ parameter o ++ ") => \x7b".toList).getLast? = some '\x7b' := by
    rw [functionHead, parameter]
    cases o.memo <;> cases o.typescript <;> exact ⟨forall_mem_of_all (by decide), by decide⟩
  have hblank : isBlank c = false ∧ c ≠ '<' ∧ c ≠ '\x7d' ∧ c ≠ ')' := by
    rcases hc with rfl | rfl <;> decide
  have hline := fillsLine_append hunbroken hfixed.1 hhead hblank.1 hfixed.2 (by decide)
  have hstart : (exportHead name o ++ (functionHead o ++ parameter o ++ ") => \x7b".toList)).head? =
      some c := by
    rw [List.head?_append, hhead]
    rfl
  have hstatement : Settled 0
      [indentation 0 ++ (exportHead name o ++ (functionHead o ++ parameter o ++ ") => \x7b".toList))]
      1 :=
    settled_opening hline (closesBlock_of_head? hstart hblank.2.1 hblank.2.2.1 hblank.2.2.2)
      ((opensBlock_of_head? hstart hblank.2.1).2 (.inl (by rw [List.getLast?_append, hfixed.2]; rfl)))
  have hreturn : Settled 1 [indentation 1 ++ "return (".toList] 2 :=
    settled_opening ⟨forall_mem_of_all (by decide), ⟨'r', rfl, by decide⟩, '(', by decide, by decide⟩
      (by decide) (by decide)
  exact (settled_imports o).append (hstatement.append hreturn)

omit hname hexport in
/-- A clause that exports names: the texts around them decide how the line starts and ends. -/
theorem settled_exportClause {names : List Char} (hnames : ∀ c ∈ names, isBreak c = false) :
    Settled 0 [indentation 0 ++ ("export \x7b ".toList ++ names ++ " \x7d;".toList)] 0 := by
  have hopening : ∀ c ∈ "export \x7b ".toList, isBreak c = false := forall_mem_of_all (by decide)
  have hclosing : ∀ c ∈ " \x7d;".toList, isBreak c = false := forall_mem_of_all (by decide)
  have hhead : ("export \x7b ".toList ++ names ++ " \x7d;".toList).head? = some 'e' := rfl
  have hlast : ("export \x7b ".toList ++ names ++ " \x7d;".toList).getLast? = some ';' := by
    rw [List.getLast?_append]
    rfl
  have hline := fillsLine_append (a := "export \x7b ".toList ++ names) (b := " \x7d;".toList)
    (fun c hc => (List.mem_append.1 hc).elim (hopening c) (hnames c)) hclosing rfl (by decide) rfl
    (by decide)
  have hopens : opensBlock ("export \x7b ".toList ++ names ++ " \x7d;".toList) = false := by
    rw [Bool.eq_false_iff, ne_eq, opensBlock_of_head? hhead (by decide), hlast]
    decide
  exact settled_plain hline (closesBlock_of_head? hhead (by decide) (by decide) (by decide)) hopens

theorem settled_backLines : Settled 2 (backLines name o) 0 := by
  have hparen : Settled 2 [indentation 1 ++ ");".toList] 1 :=
    settled_closing ⟨forall_mem_of_all (by decide), ⟨')', rfl, by decide⟩, ';', by decide, by decide⟩
      (by decide) (by decide)
  have hbrace : Settled 1
      [indentation 0 ++ ("\x7d".toList ++ (if o.memo then [')'] else []) ++ [';'])] 0 := by
    cases o.memo <;>
    · exact settled_closing
        ⟨forall_mem_of_all (by decide), ⟨'\x7d', rfl, by decide⟩, ';', by decide, by decide⟩
        (by decide) (by decide)
  have has : ∀ c ∈ " as ".toList, isBreak c = false := forall_mem_of_all (by decide)
  refine (hparen.append hbrace).append ?_
  split
  · refine (settled_empty 0).append (settled_exportClause fun c hc => ?_)
    split at hc
    · exact hname c hc
    rcases List.mem_append.1 hc with hc | hc
    · exact (List.mem_append.1 hc).elim (hname c) (has c)
    · exact hexport c hc
  · exact settled_nil 0

/-- **Indenting leaves the source of a component as it is.** -/
theorem indentWith_sourceText {root : Element} (h : ∀ e ∈ root.elements, e.WellFormed ∧ Tidy e) :
    indentWith indentUnit (sourceText root name o) = sourceText root name o := by
  have hspread : ∀ x ∈ spread o, isAttributeName x = true := by
    intro x hx
    rw [spread] at hx
    split at hx
    · rw [List.mem_singleton.1 hx]
      exact isAttributeName_propsSpread
    · cases hx
  have hsettled := (settled_frontLines hname hexport).append
    ((settled_lines o.quotes 2 h hspread).append (settled_backLines hname hexport))
  have hne : frontLines name o ++ (lines o.quotes 2 (spread o) root ++ backLines name o) ≠ [] := by
    simp [frontLines]
  have hmem : ∀ l ∈ frontLines name o ++ (lines o.quotes 2 (spread o) root ++ backLines name o),
      '\n' ∉ l ∧ '\r' ∉ l := by
    intro l hl
    exact ⟨fun hc => absurd (hsettled.unbroken l hl _ hc) (by decide),
      fun hc => absurd (hsettled.unbroken l hl _ hc) (by decide)⟩
  have hkept := hsettled.kept []
  simp only [indentLines, List.append_nil] at hkept
  rw [sourceText_eq_joinLines, indentWith,
    unifyBreaks_of_not_mem (not_mem_joinLines (by decide) fun l hl => (hmem l hl).2),
    lines_joinLines hne fun l hl => (hmem l hl).1]
  exact congrArg joinLines hkept

end

/-- **The generator and the indenter agree**: where no value, comment or text of a tree looks like the
end of a line, a close tag or a bracket, and the names have no breaks in them, the source of a component
keeps its indentation. -/
theorem indent_generate {s : List Char} {parsed : Element} (hp : parse s = .ok parsed)
    (withoutIds : Bool) (htidy : ∀ e ∈ (adapt parsed withoutIds).elements, Tidy e) (name : List Char)
    (o : Options) (hname : '\n' ∉ name ∧ '\r' ∉ name)
    (hexport : ∀ text, o.exportName = some text → '\n' ∉ text.toList ∧ '\r' ∉ text.toList) :
    ∃ source, generate (adapt parsed withoutIds) name o = .ok source ∧
      Source.indent (.spaces 2) source = .ok source := by
  obtain ⟨hroot, hsound⟩ := parse_sound hp
  have hbreak : ∀ {text : List Char}, '\n' ∉ text ∧ '\r' ∉ text → ∀ c ∈ text, isBreak c = false := by
    rintro text ⟨hn, hr⟩ c hc
    exact isBreak_eq_false (fun h => hn (h ▸ hc)) fun h => hr (h ▸ hc)
  have hexported : ∀ c ∈ exportName name o, isBreak c = false := by
    rw [exportName]
    split
    · exact hbreak hname
    · rename_i text he
      split
      · exact hbreak hname
      · exact hbreak (hexport text he)
  have hwell : ∀ e ∈ (adapt parsed withoutIds).elements, e.WellFormed ∧ Tidy e := fun e he =>
    ⟨wellFormed_of_mem_elements (isSound_adapt withoutIds hsound) he, htidy e he⟩
  refine ⟨sourceText (adapt parsed withoutIds) name o, generate_eq ?_ name o, ?_⟩
  · rw [adapt_tag, hroot]
  · show Except.ok (indentWith indentUnit _) = _
    rw [indentWith_sourceText (hbreak hname) hexported hwell]

theorem indent_generate_mixed :
    ∃ root source,
      parse "<svg id='i'><!-- ( --><text x='1'>f(x) <b c='\x7d'/>, \x7b\n<i>(</i> </text></svg>".toList =
        .ok root ∧
      generate (adapt root true) "Icon".toList
          { memo := true, exportStyle := .named, exportName := some "Star" } = .ok source ∧
      Source.indent (.spaces 2) source = .ok source := by
  obtain ⟨root, hp, ht⟩ := exists_parse_of_any
    (s := "<svg id='i'><!-- ( --><text x='1'>f(x) <b c='\x7d'/>, \x7b\n<i>(</i> </text></svg>".toList)
    (p := fun root => (adapt root true).elements.all isTidy) (by decide +kernel)
  obtain ⟨source, hsource, hkept⟩ := indent_generate hp true
    (fun e he => isTidy_iff.1 (List.all_eq_true.1 ht e he)) "Icon".toList
    { memo := true, exportStyle := .named, exportName := some "Star" } (by decide) (by simp)
  exact ⟨root, source, hp, hsource, hkept⟩

end SvgComponent.Component
