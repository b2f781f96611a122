import SvgComponent.Proofs.Marks

/-!
# The markup in minified source

Minifying keeps the marks of written source (`Written.keepsMarks`). Only the values of attributes can
change, and they are minified in the state in which each of them is read: as literals, in which runs of
blanks become spaces, or as code if quotation marks in the text before have shifted what is read as a
literal.

* `marks_minify_text` to `marks_minify_spread`: the marks of each construct when it is minified.
* `keepsValues`: whether values change in runs of blanks only, told from the source alone.
* `Written.marks_minify_calm`: they do if quotation marks stand around literals and values only.
-/

namespace SvgComponent.Markup

open Text Source

section
variable (r : Reading)

/-! ## Content -/

/-- Blanks make no marks, and neither does what is left of them. -/
theorem marks_minify_dropBlanks (mode : Mode) (s : List Char) :
    marks mode (minifyFrom r [] (s.dropWhile isBlank)) = marks mode (minifyFrom r [] s) := by
  have hspace : ∀ t, marks mode (' ' :: t) = marks mode t := by
    intro t
    cases mode with
    | content => rw [← map_marksAt .content 0, marksAt_text (by decide), map_marksAt]
    | tag => rw [← map_marksAt .tag 0, marksAt_blank (by decide), map_marksAt]
  cases s with
  | nil => rfl
  | cons c s =>
    cases hc : isBlank c with
    | false => rw [List.dropWhile_cons_of_neg (by simp [hc])]
    | true =>
      rw [List.dropWhile_cons_of_pos hc]
      rcases minifyFrom_blank r [] hc s with h | ⟨-, h⟩ <;> rw [h]
      rw [hspace]

/-- What follows a character that is kept makes the same marks, with the blanks behind it or without. -/
theorem marks_minify_keep (mode mode' : Mode) {c : Char} (hb : isBlank c = false)
    (hq : isStringQuote c = false) (hc : c ≠ ';') (before : List Char) (ls : List Lexeme)
    (hmark : ∀ t, marks mode (before ++ c :: t) = ls ++ marks mode' t) (s : List Char) :
    marks mode (before ++ minifyFrom r [] (c :: s)) = ls ++ marks mode' (minifyFrom r [] s) := by
  rcases minifyFrom_keep r [] hb hq hc s with h | ⟨-, h⟩ <;> rw [h, hmark]
  rw [marks_minify_dropBlanks]

/-- Text makes no marks when it is minified. -/
theorem marks_minify_text {c : Char} (hc : c ≠ '<') (s : List Char) :
    marks .content (minifyFrom r [] (c :: s)) =
      marks .content (minifyFrom (r.next c s) [] s) := by
  have htext : ∀ t, marks .content (c :: t) = marks .content t := by
    intro t
    rw [← map_marksAt .content 0, marksAt_text hc, map_marksAt]
  cases hq : isStringQuote c with
  | true => rw [minifyFrom_quote r [] hq, htext, List.append_nil]
  | false =>
    rw [next_of_not_quote hq]
    cases hb : isBlank c with
    | true =>
      rw [← marks_minify_dropBlanks, List.dropWhile_cons_of_pos hb, marks_minify_dropBlanks]
    | false =>
      by_cases hs : c = ';'
      · subst hs
        obtain ⟨t, ht, h⟩ := minifyFrom_semicolon r [] s
        have hsame : marks .content (minifyFrom r [] t) = marks .content (minifyFrom r [] s) := by
          rcases ht with rfl | rfl
          · rfl
          · exact marks_minify_dropBlanks r .content s
        rcases h with h | ⟨-, h⟩ <;> rw [h]
        · rw [htext, hsame]
        · exact hsame
      · exact marks_minify_keep r .content .content hb hq hs [] [] htext s

theorem marks_minify_append_text {text : List Char} (ht : '<' ∉ text) (s : List Char) :
    marks .content (minifyFrom r [] (text ++ s)) =
      marks .content (minifyFrom (r.after text s) [] s) := by
  induction text generalizing r with
  | nil => rfl
  | cons c text ih =>
    simp only [List.mem_cons, not_or] at ht
    rw [List.cons_append, marks_minify_text r (Ne.symm ht.1), ih _ ht.2, Reading.after]

/-- A `<` between quotation marks stays between them. -/
theorem marks_minify_angle (s : List Char) :
    marks .content (minifyFrom r [] ('"' :: '<' :: '"' :: s)) =
      marks .content (minifyFrom (r.after ['"', '<', '"'] s) [] s) := by
  have hquote : isStringQuote '"' = true := by decide
  have hangle : ∀ r, minifyFrom r [] ('<' :: '"' :: s) = '<' :: minifyFrom r [] ('"' :: s) :=
    fun r => minifyFrom_plain r [] (a := ['<']) (forall_mem_of_all (by decide)) _
  rw [minifyFrom_quote _ [] hquote, hangle, minifyFrom_quote _ [] hquote, ← map_marksAt .content 0,
    marksAt_text (by decide), marksAt_lone, map_marksAt, List.append_nil, List.append_nil,
    Reading.after, Reading.after, Reading.after, Reading.after,
    next_of_not_quote (show isStringQuote '<' = false by decide)]
  rfl

theorem plain_of_mem_tag {tag : List Char} (ht : isTagName tag = true) {c : Char} (hc : c ∈ tag) :
    isBlank c = false ∧ isStringQuote c = false ∧ isLoose c = false := by
  obtain ⟨hb, hq, hl, -⟩ := isNameChar_facts (isNameChar_of_mem_tag ht hc)
  exact ⟨hb, hq, hl⟩

theorem marks_minify_open {tag s : List Char} (ht : isTagName tag = true)
    (hs : Clear isNameChar (minifyFrom r [] s)) :
    marks .content (minifyFrom r [] ('<' :: (tag ++ s))) =
      .openTag tag :: marks .tag (minifyFrom r [] s) := by
  have hplain : ∀ c ∈ '<' :: tag, isBlank c = false ∧ isStringQuote c = false ∧
      isLoose c = false := by
    intro c hc
    rcases List.mem_cons.1 hc with rfl | hc
    · decide
    · exact plain_of_mem_tag ht hc
  have hminify := minifyFrom_plain r [] hplain s
  simp only [List.cons_append] at hminify
  rw [hminify, ← map_marksAt .content 0, marksAt_open ht hs, List.map_cons, map_marksAt]

theorem marks_minify_close {tag : List Char} (ht : isTagName tag = true) (s : List Char) :
    marks .content (minifyFrom r [] ('<' :: '/' :: (tag ++ '>' :: s))) =
      .closeTag tag :: marks .content (minifyFrom r [] s) := by
  have hplain : ∀ c ∈ '<' :: '/' :: tag, isBlank c = false ∧ isStringQuote c = false ∧
      isLoose c = false := by
    intro c hc
    rcases List.mem_cons.1 hc with rfl | hc
    · decide
    rcases List.mem_cons.1 hc with rfl | hc
    · decide
    · exact plain_of_mem_tag ht hc
  have hminify := minifyFrom_plain r [] hplain ('>' :: s)
  rw [List.cons_append, List.cons_append] at hminify
  rw [hminify]
  refine marks_minify_keep r .content .content (by decide) (by decide) (by decide)
    ('<' :: '/' :: tag) [.closeTag tag] (fun t => ?_) s
  rw [List.cons_append, List.cons_append, ← map_marksAt .content 0, marksAt_close ht, List.map_cons,
    map_marksAt]
  rfl

/-! ## Start tags -/

/-- A space in front of a tag's further parts is skipped. -/
theorem marks_minify_space {c : Char} (hc : isBlank c = false) (s : List Char) :
    marks .tag (minifyFrom r [] (' ' :: c :: s)) = marks .tag (minifyFrom r [] (c :: s)) := by
  have h := marks_minify_dropBlanks r .tag (' ' :: c :: s)
  rw [List.dropWhile_cons_of_pos (by decide), List.dropWhile_cons_of_neg (by simp [hc])] at h
  exact h.symm

theorem minifyFrom_slash (s : List Char) : minifyFrom r [] ('/' :: s) = '/' :: minifyFrom r [] s :=
  minifyFrom_plain r [] (a := ['/']) (forall_mem_of_all (by decide)) s

theorem marks_minify_ending (selfClosed : Bool) (s : List Char) :
    marks .tag (minifyFrom r [] (tagEnding selfClosed ++ s)) =
      endLexeme selfClosed :: marks .content (minifyFrom r [] s) := by
  cases selfClosed with
  | false =>
    refine marks_minify_keep r .tag .content (by decide) (by decide) (by decide)
      [] [.tagEnd] (fun t => ?_) s
    rw [List.nil_append, ← map_marksAt .tag 0, marksAt_tagEnd, List.map_cons, map_marksAt]
    rfl
  | true =>
    show marks .tag (minifyFrom r [] (' ' :: '/' :: '>' :: s)) = .selfClose :: _
    rw [marks_minify_space r (by decide), minifyFrom_slash]
    refine marks_minify_keep r .tag .content (by decide) (by decide) (by decide)
      ['/'] [.selfClose] (fun t => ?_) s
    rw [List.singleton_append, ← map_marksAt .tag 0, marksAt_selfClose, List.map_cons, map_marksAt]
    rfl

theorem exists_minify_tagEnd (s : List Char) : ∃ t, minifyFrom r [] ('>' :: s) = '>' :: t := by
  rcases minifyFrom_keep r [] (show isBlank '>' = false by decide) (by decide) (by decide) s with
    h | ⟨-, h⟩ <;> exact ⟨_, h⟩

/-- The end of a start tag is no part of a name in front of it, nor the value of an attribute. -/
theorem clear_minify_ending (selfClosed : Bool) (s : List Char) {e : List Char}
    (he : e = tagEnding selfClosed ++ s ∨ e = (tagEnding selfClosed ++ s).dropWhile isBlank) :
    Clear isAttributeChar (minifyFrom r [] e) ∧
      Clear (· == '=') ((minifyFrom r [] e).dropWhile isBlank) := by
  have hclear : ∀ {c : Char} {t : List Char}, isAttributeChar c = false → isBlank c = false →
      c ≠ '=' → Clear isAttributeChar (c :: t) ∧ Clear (· == '=') ((c :: t).dropWhile isBlank) := by
    intro c t ha hb hc
    rw [List.dropWhile_cons_of_neg (by simp [hb])]
    exact ⟨by simpa using ha, by simpa using hc⟩
  cases selfClosed with
  | false =>
    obtain ⟨t, ht⟩ := exists_minify_tagEnd r s
    have hdrop : (tagEnding false ++ s).dropWhile isBlank = '>' :: s :=
      List.dropWhile_cons_of_neg (by decide)
    rw [hdrop] at he
    obtain rfl : e = '>' :: s := he.elim id id
    rw [ht]
    exact hclear (by decide) (by decide) (by decide)
  | true =>
    have hdrop : (tagEnding true ++ s).dropWhile isBlank = '/' :: '>' :: s := by
      show (' ' :: '/' :: '>' :: s).dropWhile isBlank = _
      rw [List.dropWhile_cons_of_pos (by decide), List.dropWhile_cons_of_neg (by decide)]
    rcases he with rfl | rfl
    · have hslash : ('/' :: '>' :: s).dropWhile isBlank = '/' :: '>' :: s :=
        List.dropWhile_cons_of_neg (by decide)
      have hspace : minifyFrom r [] (tagEnding true ++ s) = ' ' :: '/' :: minifyFrom r [] ('>' :: s) := by
        refine (minifyFrom_blank r [] (show isBlank ' ' = true by decide) ('/' :: '>' :: s)).elim
          (fun h => ?_) (fun h => ?_)
        · rw [hslash, minifyFrom_slash] at h
          exact h
        · rw [hslash] at h
          exact absurd h.1 (by simp [isTight, isPunctuation])
      rw [hspace, List.dropWhile_cons_of_pos (by decide)]
      exact ⟨(clear_cons _ _ _).2 (by decide), (hclear (by decide) (by decide) (by decide)).2⟩
    · rw [hdrop, minifyFrom_slash]
      exact hclear (by decide) (by decide) (by decide)

theorem propsSpread_append (t : List Char) :
    Component.propsSpread ++ t = '\x7b' :: ("...props".toList ++ '\x7d' :: t) := by
  have hparts : Component.propsSpread = '\x7b' :: ("...props".toList ++ ['\x7d']) := by decide
  rw [hparts, List.cons_append, List.append_assoc]
  rfl

/-- The part that passes properties on is kept as it is. -/
theorem exists_minify_spread (e : List Char) :
    ∃ t, (t = e ∨ t = e.dropWhile isBlank) ∧
      minifyFrom r [] (Component.propsSpread ++ e) =
        Component.propsSpread ++ minifyFrom r [] t := by
  have hinner := minifyFrom_plain r [] (a := "...props".toList) (forall_mem_of_all (by decide))
    ('\x7d' :: e)
  have hopen : minifyFrom r [] (Component.propsSpread ++ e) =
      '\x7b' :: ("...props".toList ++ minifyFrom r [] ('\x7d' :: e)) := by
    rw [propsSpread_append, ← hinner]
    rcases minifyFrom_keep r [] (show isBlank '\x7b' = false by decide) (by decide) (by decide)
      ("...props".toList ++ '\x7d' :: e) with h | ⟨-, h⟩
    · exact h
    · rwa [show ("...props".toList ++ '\x7d' :: e).dropWhile isBlank =
        "...props".toList ++ '\x7d' :: e from List.dropWhile_cons_of_neg (by decide)] at h
  rcases minifyFrom_keep r [] (show isBlank '\x7d' = false by decide) (by decide) (by decide) e with
    h | ⟨-, h⟩
  · exact ⟨e, .inl rfl, by rw [hopen, h, propsSpread_append]⟩
  · exact ⟨_, .inr rfl, by rw [hopen, h, propsSpread_append]⟩

theorem marks_minify_spread (selfClosed : Bool) (s : List Char) :
    marks .tag (minifyFrom r [] (' ' :: (Component.propsSpread ++ (tagEnding selfClosed ++ s)))) =
      .attribute Component.propsSpread [] :: endLexeme selfClosed ::
        marks .content (minifyFrom r [] s) := by
  obtain ⟨t, ht, hminify⟩ := exists_minify_spread r (tagEnding selfClosed ++ s)
  obtain ⟨hclear, hequals⟩ := clear_minify_ending r selfClosed s ht
  have hspace : marks .tag (minifyFrom r []
      (' ' :: (Component.propsSpread ++ (tagEnding selfClosed ++ s)))) =
      marks .tag (minifyFrom r [] (Component.propsSpread ++ (tagEnding selfClosed ++ s))) := by
    rw [propsSpread_append]
    exact marks_minify_space r (by decide) _
  have hrest : marks .tag (minifyFrom r [] t) =
      marks .tag (minifyFrom r [] (tagEnding selfClosed ++ s)) := by
    rcases ht with rfl | rfl
    · rfl
    · exact marks_minify_dropBlanks r .tag _
  rw [hspace, hminify, ← map_marksAt .tag 0,
    marksAt_valueless isAttributeName_propsSpread hclear hequals, List.map_cons, map_marksAt, hrest,
    marks_minify_ending]

/-- An attribute is kept, with its value minified in the state that its opening mark leads to. -/
theorem marks_minify_attribute {name v : List Char} {q : Char} (hne : name ≠ [])
    (hn : name.all isNameChar = true) (hq : isQuote q = true) (hv : q ∉ v) (s : List Char) :
    marks .tag (minifyFrom r [] (' ' :: (name ++ '=' :: q :: (v ++ q :: s)))) =
      .attribute name (minifyFrom (r.next q (v ++ q :: s)) (q :: s) v) ::
        marks .tag (minifyFrom (((r.next q (v ++ q :: s)).after v (q :: s)).next q s) [] s) := by
  have hquote : isStringQuote q = true := hq
  have hqb : isBlank q = false := (isStringQuote_facts hquote).1
  have hplain : ∀ c ∈ name, isBlank c = false ∧ isStringQuote c = false ∧ isLoose c = false := by
    intro c hc
    obtain ⟨h1, h2, h3, -⟩ := isNameChar_facts (List.all_eq_true.1 hn c hc)
    exact ⟨h1, h2, h3⟩
  have hspace : marks .tag (minifyFrom r [] (' ' :: (name ++ '=' :: q :: (v ++ q :: s)))) =
      marks .tag (minifyFrom r [] (name ++ '=' :: q :: (v ++ q :: s))) := by
    obtain ⟨c, name, rfl⟩ := List.exists_cons_of_ne_nil hne
    exact marks_minify_space r (hplain c (by simp)).1 _
  have hequals : minifyFrom r [] ('=' :: q :: (v ++ q :: s)) =
      '=' :: minifyFrom r [] (q :: (v ++ q :: s)) := by
    rcases minifyFrom_keep r [] (show isBlank '=' = false by decide) (by decide) (by decide)
      (q :: (v ++ q :: s)) with h | ⟨-, h⟩
    · exact h
    · rwa [List.dropWhile_cons_of_neg (by simp [hqb])] at h
  have hvalue : q ∉ minifyFrom (r.next q (v ++ q :: s)) (q :: s) v := fun hm => by
    rcases mem_minifyFrom hm with rfl | hm
    · cases hqb
    · exact hv hm
  rw [hspace, minifyFrom_plain r [] hplain, hequals, minifyFrom_quote r [] hquote,
    minifyFrom_append_quote hquote]
  simp only [List.append_nil]
  rw [← map_marksAt .tag 0, marksAt_quoted (isAttributeName_of_isNameChar hne hn) hq hvalue,
    List.map_cons, map_marksAt]

end

/-- What follows a tag's name is no part of it when it is minified. -/
theorem Written.clear_minify {calm : Bool} {s : List Char} {ls : List Lexeme}
    (h : Written calm .tag s ls) (r : Reading) : Clear isNameChar (minifyFrom r [] s) := by
  have hspace : ∀ {c : Char} (t : List Char), isBlank c = false →
      (isTight c = true → Clear isNameChar (minifyFrom r [] (c :: t))) →
      Clear isNameChar (minifyFrom r [] (' ' :: c :: t)) := by
    intro c t hb hc
    have hdrop : (c :: t).dropWhile isBlank = c :: t := List.dropWhile_cons_of_neg (by simp [hb])
    rcases minifyFrom_blank r [] (show isBlank ' ' = true by decide) (c :: t) with h | ⟨htight, h⟩
    · rw [h]
      exact (clear_cons _ _ _).2 (by decide)
    · rw [hdrop] at h htight
      rw [h]
      exact hc htight
  cases h with
  | @«attribute» name v s q ls hne hn _ _ _ =>
    obtain ⟨c, name, rfl⟩ := List.exists_cons_of_ne_nil hne
    rw [List.all_cons, Bool.and_eq_true] at hn
    obtain ⟨hb, -, -, htight⟩ := isNameChar_facts hn.1
    exact hspace _ hb fun h => by rw [htight] at h; cases h
  | @ending s _ selfClosed =>
    have hend := (clear_minify_ending r selfClosed s (.inl rfl)).1
    refine fun c hc => Bool.eq_false_iff.2 fun hname => ?_
    have := hend c hc
    rw [isAttributeChar_of_isNameChar hname] at this
    cases this
  | @spread s _ selfClosed =>
    obtain ⟨t, -, ht⟩ := exists_minify_spread r (tagEnding selfClosed ++ s)
    rw [propsSpread_append, propsSpread_append] at ht
    rw [propsSpread_append]
    refine hspace _ (by decide) fun _ => ?_
    rw [ht]
    exact (clear_cons _ _ _).2 (by decide)

/-! ## All marks -/

/-- The state in which source is read behind its first `n` characters. -/
def readingAt (source : List Char) (n : Nat) : Reading :=
  Reading.code.after (source.take n) (source.drop n)

theorem readingAt_length (a b : List Char) : readingAt (a ++ b) a.length = Reading.code.after a b := by
  rw [readingAt, List.take_left, List.drop_left]

/-- What a token of source says once the source is minified: the value of an attribute is minified in
the state in which it is read. -/
def minifiedLexeme (source : List Char) (t : Token) : Lexeme :=
  match t.lexeme with
  | .attribute name value =>
    let start := t.pos + name.length + 2
    .attribute name
      (minifyFrom (readingAt source start) (source.drop (start + value.length)) value)
  | l => l

/-- The marks at the end `s` of any source are kept when it is minified, but for values. -/
def KeepsMarks (mode : Mode) (s : List Char) : Prop :=
  ∀ before : List Char, marks mode (minifyFrom (Reading.code.after before s) [] s) =
    (marksAt mode before.length s).map (minifiedLexeme (before ++ s))

/-- In a text that ends with `s`, with `a` in front of it. -/
theorem KeepsMarks.behind {mode : Mode} {s : List Char} (h : KeepsMarks mode s)
    (before a : List Char) :
    marks mode (minifyFrom ((Reading.code.after before (a ++ s)).after a s) [] s) =
      (marksAt mode (before.length + a.length) s).map (minifiedLexeme (before ++ (a ++ s))) := by
  have := h (before ++ a)
  rwa [after_append, List.length_append, List.append_assoc] at this

/-- The same where `a` does not change the state. -/
theorem KeepsMarks.behind_plain {mode : Mode} {s : List Char} (h : KeepsMarks mode s)
    (before : List Char) {a : List Char} (ha : ∀ c ∈ a, isStringQuote c = false) :
    marks mode (minifyFrom (Reading.code.after before (a ++ s)) [] s) =
      (marksAt mode (before.length + a.length) s).map (minifiedLexeme (before ++ (a ++ s))) := by
  rw [← h.behind, after_of_not_quote ha]

/-- The state behind the mark that opens a value. -/
theorem after_name {name : List Char} {q : Char} (hn : name.all isNameChar = true) (r : Reading)
    (s : List Char) : r.after (' ' :: (name ++ ['=', q])) s = r.next q s := by
  have hquote : ∀ c ∈ ' ' :: (name ++ ['=']), isStringQuote c = false := by
    intro c hc
    simp only [List.mem_cons, List.mem_append, List.not_mem_nil, or_false] at hc
    rcases hc with rfl | hc | rfl
    · decide
    · exact (isNameChar_facts (List.all_eq_true.1 hn c hc)).2.1
    · decide
  rw [show ' ' :: (name ++ ['=', q]) = (' ' :: (name ++ ['='])) ++ [q] by simp, after_append,
    after_of_not_quote hquote]
  rfl

theorem keepsMarks_attribute {name v s : List Char} {q : Char} (hne : name ≠ [])
    (hn : name.all isNameChar = true) (hq : isQuote q = true) (hv : q ∉ v)
    (h : KeepsMarks .tag s) :
    KeepsMarks .tag (' ' :: (name ++ '=' :: q :: (v ++ q :: s))) := by
  intro before
  have hopen : ∀ t, ' ' :: (name ++ '=' :: q :: t) = (' ' :: (name ++ ['=', q])) ++ t := by simp
  have hstart : (before ++ (' ' :: (name ++ ['=', q]))).length =
      before.length + 1 + name.length + 2 := by
    simp
    omega
  -- where the value starts, and in which state
  have hreading : readingAt (before ++ (' ' :: (name ++ '=' :: q :: (v ++ q :: s))))
      (before.length + 1 + name.length + 2) =
        (Reading.code.after before (' ' :: (name ++ '=' :: q :: (v ++ q :: s)))).next q
          (v ++ q :: s) := by
    rw [hopen, ← List.append_assoc, ← hstart, readingAt_length, after_append, after_name hn]
  have hdrop : (before ++ (' ' :: (name ++ '=' :: q :: (v ++ q :: s)))).drop
      (before.length + 1 + name.length + 2 + v.length) = q :: s := by
    rw [hopen, ← List.append_assoc, ← List.append_assoc, ← hstart, ← List.length_append,
      List.drop_left]
  have hbehind := h.behind before ((' ' :: (name ++ ['=', q])) ++ (v ++ [q]))
  rw [after_append _ (' ' :: (name ++ ['=', q])), after_name hn, after_append _ v, Reading.after,
    Reading.after] at hbehind
  simp only [List.append_assoc, List.cons_append, List.nil_append, List.length_append,
    List.length_cons, List.length_nil] at hbehind
  rw [marks_minify_attribute _ hne hn hq hv, marksAt_blank (by decide),
    marksAt_quoted (isAttributeName_of_isNameChar hne hn) hq hv, List.map_cons, hbehind]
  simp only [minifiedLexeme, hreading, hdrop]
  congr 3
  omega

theorem keepsMarks_spread {s : List Char} (selfClosed : Bool) (h : KeepsMarks .content s) :
    KeepsMarks .tag (' ' :: (Component.propsSpread ++ (tagEnding selfClosed ++ s))) := by
  intro before
  have hquote : ∀ c ∈ ' ' :: (Component.propsSpread ++ tagEnding selfClosed),
      isStringQuote c = false := by
    cases selfClosed <;> exact forall_mem_of_all (by decide)
  have hbehind := h.behind_plain before hquote
  simp only [List.cons_append, List.append_assoc, List.length_cons, List.length_append] at hbehind
  obtain ⟨n, hn⟩ := marksAt_ending selfClosed (before.length + 1 + Component.propsSpread.length) s
  rw [marks_minify_spread, marksAt_blank (by decide), marksAt_spread, hn, List.map_cons,
    List.map_cons, hbehind]
  simp only [minifiedLexeme, minifyFrom_nil]
  congr 2
  · cases selfClosed <;> rfl
  · congr 2
    omega

/-- **The marks of source are kept when it is minified**, but for values. -/
theorem Written.keepsMarks {calm : Bool} {mode : Mode} {s : List Char} {ls : List Lexeme}
    (h : Written calm mode s ls) : KeepsMarks mode s := by
  -- whatever stands before: it decides in which state the rest is read
  induction h with
  | nil =>
    intro before
    rw [minifyFrom_nil, marksAt_nil, marks, lexemes_nil]
    rfl
  | @char c s ls hc _ _ ih =>
    intro before
    rw [marks_minify_text _ hc, marksAt_text hc]
    exact ih.behind before [c]
  | @literal q v s ls hq hv hlt _ ih =>
    intro before
    have hne : q ≠ '<' := (isStringQuote_facts hq).2.2.2.1
    have htext : '<' ∉ q :: (v ++ [q]) := by simp [Ne.symm hne, hlt]
    rw [show q :: (v ++ q :: s) = (q :: (v ++ [q])) ++ s by simp,
      marks_minify_append_text _ htext, marksAt_append_text htext]
    exact ih.behind before _
  | @angle s ls _ ih =>
    intro before
    rw [marks_minify_angle, marksAt_text (by decide), marksAt_lone]
    exact ih.behind before ['"', '<', '"']
  | @openTag tag s ls ht hs ih =>
    intro before
    have hquote : ∀ c ∈ '<' :: tag, isStringQuote c = false := by
      intro c hc
      rcases List.mem_cons.1 hc with rfl | hc
      · decide
      · exact (plain_of_mem_tag ht hc).2.1
    rw [marks_minify_open _ ht (hs.clear_minify _), marksAt_open ht hs.clear_isNameChar, List.map_cons]
    exact congrArg _ (ih.behind_plain before hquote)
  | @closeTag tag s ls ht _ ih =>
    intro before
    have hquote : ∀ c ∈ '<' :: '/' :: (tag ++ ['>']), isStringQuote c = false := by
      intro c hc
      simp only [List.mem_cons, List.mem_append, List.not_mem_nil, or_false] at hc
      rcases hc with rfl | rfl | hc | rfl
      · decide
      · decide
      · exact (plain_of_mem_tag ht hc).2.1
      · decide
    have hbehind := ih.behind_plain before hquote
    simp only [List.cons_append, List.append_assoc, List.nil_append, List.length_cons,
      List.length_append, List.length_nil] at hbehind
    rw [marks_minify_close _ ht, marksAt_close ht, List.map_cons, hbehind]
    rfl
  | «attribute» hne hn hq hv _ ih => exact keepsMarks_attribute hne hn hq hv ih
  | @ending s ls selfClosed _ ih =>
    intro before
    have hquote : ∀ c ∈ tagEnding selfClosed, isStringQuote c = false := by
      cases selfClosed <;> exact forall_mem_of_all (by decide)
    obtain ⟨n, hn⟩ := marksAt_ending selfClosed before.length s
    rw [marks_minify_ending, hn, List.map_cons, ih.behind_plain before hquote]
    cases selfClosed <;> rfl
  | spread selfClosed _ ih => exact keepsMarks_spread selfClosed ih

/-! ## Values that are kept -/

/-- Whether a stretch of source is a part of a literal, or else steady code. -/
def isKept (p : Reading × List Char) : Bool := p.1 != .code || isSteady p.2

/-- Whether what a token of source holds as code in a value, if it holds any, is steady. -/
def keepsValue (source : List Char) (t : Token) : Bool :=
  match t.lexeme with
  | .attribute name value =>
    let start := t.pos + name.length + 2
    ((readingAt source start).stretches [] (source.drop (start + value.length)) value).all isKept
  | _ => true

/-- Whether all attribute values of source are kept so. -/
def keepsValues (source : List Char) : Bool := (tokenize source).all (keepsValue source)

theorem all_isKept_iff (r : Reading) (rest s : List Char) :
    (r.stretches [] rest s).all isKept = true ↔ minifyFrom r rest s = collapse s := by
  rw [minifyFrom_eq_collapse_iff, List.all_eq_true]
  constructor
  · intro h w hw
    simpa [isKept] using h _ hw
  · rintro h ⟨r', w⟩ hw
    cases r' with
    | code => simpa [isKept] using h w hw
    | literal mark => rfl

theorem keepsValue_iff (source : List Char) {t : Token} (ht : t.lexeme.isMark = true) :
    keepsValue source t = true ↔
      (minifiedLexeme source t).Alike (fun a b => a = collapse b) (fun _ _ => True) t.lexeme := by
  obtain ⟨lexeme, pos⟩ := t
  cases lexeme with
  | text | comment | cdata => cases ht
  | «attribute» name value =>
    simp only [keepsValue, minifiedLexeme, all_isKept_iff]
    exact ⟨fun h => .attribute h, fun h => by cases h; assumption⟩
  | openTag => exact ⟨fun _ => .openTag, fun _ => rfl⟩
  | tagEnd => exact ⟨fun _ => .tagEnd, fun _ => rfl⟩
  | selfClose => exact ⟨fun _ => .selfClose, fun _ => rfl⟩
  | closeTag => exact ⟨fun _ => .closeTag, fun _ => rfl⟩

/-- **Values are kept up to runs of blanks** exactly if the code in them is steady. -/
theorem keepsValues_iff (source : List Char) :
    keepsValues source = true ↔
      List.Forall₂ (Lexeme.Alike (fun a b => a = collapse b) fun _ _ => True)
        ((marksAt .content 0 source).map (minifiedLexeme source))
        ((marksAt .content 0 source).map Token.lexeme) := by
  rw [List.forall₂_map_left_iff, List.forall₂_map_right_iff, List.forall₂_same, keepsValues,
    List.all_eq_true]
  constructor
  · intro h t ht
    obtain ⟨htoken, hmark⟩ := List.mem_filter.1 ht
    exact (keepsValue_iff source hmark).1 (h t htoken)
  · intro h t ht
    cases hmark : t.lexeme.isMark with
    | true => exact (keepsValue_iff source hmark).2 (h t (List.mem_filter.2 ⟨ht, hmark⟩))
    | false =>
      obtain ⟨lexeme, pos⟩ := t
      cases lexeme <;> first | rfl | cases hmark

/-! ## Calm source -/

/-- A lexeme with one space for each run of blanks in its value. -/
def Lexeme.collapsed : Lexeme → Lexeme
  | .attribute name value => .attribute name (collapse value)
  | l => l

theorem Lexeme.collapsed_alike :
    ∀ l : Lexeme, l.collapsed.Alike (fun a b => a = collapse b) (fun _ _ => True) l
  | .text _ => .text trivial
  | .comment _ => .comment
  | .cdata _ => .cdata trivial
  | .openTag _ => .openTag
  | .attribute _ _ => .attribute rfl
  | .tagEnd => .tagEnd
  | .selfClose => .selfClose
  | .closeTag _ => .closeTag

/-- **In calm source all values are literals**, and change in runs of blanks only. -/
theorem Written.marks_minify_calm {mode : Mode} {s : List Char} {ls : List Lexeme}
    (h : Written true mode s ls) :
    marks mode (minifyFrom .code [] s) = ls.map Lexeme.collapsed := by
  induction h with
  | nil =>
    rw [minifyFrom_nil, marks, lexemes_nil]
    rfl
  | char hc hq _ ih => rw [marks_minify_text _ hc, next_of_not_quote (hq rfl), ih]
  | @literal q v s ls hq hv hlt _ ih =>
    have hne : q ≠ '<' := (isStringQuote_facts hq).2.2.2.1
    have htext : '<' ∉ q :: (v ++ [q]) := by simp [Ne.symm hne, hlt]
    rw [show q :: (v ++ q :: s) = (q :: (v ++ [q])) ++ s by simp,
      marks_minify_append_text _ htext, after_closed hq hv, ih]
  | @angle s ls _ ih =>
    have hclosed := after_closed (q := '"') (v := ['<']) (by decide) (by decide) s
    rw [marks_minify_angle, show ['"', '<', '"'] = '"' :: (['<'] ++ ['"']) from rfl, hclosed, ih]
  | openTag ht hs ih => rw [marks_minify_open _ ht (hs.clear_minify _), ih]; rfl
  | closeTag ht _ ih => rw [marks_minify_close _ ht, ih]; rfl
  | @«attribute» name v s q ls hne hn hq hv _ ih =>
    have hquote : isStringQuote q = true := hq
    rw [marks_minify_attribute _ hne hn hq hv, next_code hquote (by simp), minifyFrom_literal hv,
      after_literal hv, next_literal_mark hquote, ih]
    rfl
  | ending selfClosed _ ih => rw [marks_minify_ending, ih]; cases selfClosed <;> rfl
  | spread selfClosed _ ih => rw [marks_minify_spread, ih]; cases selfClosed <;> rfl

/-- **Calm source keeps its values.** -/
theorem Written.keepsValues {s : List Char} {ls : List Lexeme} (h : Written true .content s ls) :
    keepsValues s = true := by
  have hmarks := h.keepsMarks []
  simp only [Reading.after, List.length_nil, List.nil_append] at hmarks
  rw [keepsValues_iff, ← hmarks, map_marksAt, h.marks_eq, h.marks_minify_calm,
    List.forall₂_map_left_iff, List.forall₂_same]
  exact fun l _ => l.collapsed_alike

end SvgComponent.Markup
