import SvgComponent.Markup.Tree
import SvgComponent.Proofs.Text

/-!
# What the reader makes of each construct

`lexemes mode s` is what is read from `s` when the reader is in `mode`, without the places. Each
lemma of this module takes one construct in front of any further text and says which lexeme it makes
and where the reader goes on: text, comments, CDATA sections, start and close tags in content
(`lexemes_text` to `lexemes_close`), and blanks, attributes and the two ends inside a start tag
(`lexemes_blanks` to `lexemes_selfClose`). What follows the construct is arbitrary, apart from the
conditions under which it does not continue the construct.
-/

namespace SvgComponent.Markup

open Text

/-- The lexemes of the text that is left. -/
def lexemes (mode : Mode) (s : List Char) : List Lexeme := (scan mode 0 s).map Token.lexeme

/-! ## One step -/

theorem scan_cons (mode : Mode) (pos : Nat) (c : Char) (s : List Char) :
    scan mode pos (c :: s) =
      ((Step.at mode c s).lexeme.map (⟨·, pos⟩)).toList ++
        scan (Step.at mode c s).mode (pos + (Step.at mode c s).extra + 1)
          (s.drop (Step.at mode c s).extra) := by
  rw [scan]
  cases h : (Step.at mode c s).lexeme <;> simp

/-- Induction along the steps of the reader. -/
@[elab_as_elim]
theorem steps_induction {motive : Mode → List Char → Prop} (nil : ∀ mode, motive mode [])
    (cons : ∀ mode c s, motive (Step.at mode c s).mode (s.drop (Step.at mode c s).extra) →
      motive mode (c :: s)) (mode : Mode) (s : List Char) : motive mode s := by
  induction hn : s.length using Nat.strongRecOn generalizing mode s with
  | ind n ih =>
    cases s with
    | nil => exact nil mode
    | cons c s =>
      have hlt : (s.drop (Step.at mode c s).extra).length < n := by
        simp only [List.length_cons] at hn
        simp only [List.length_drop]
        omega
      exact cons mode c s (ih _ hlt _ _ rfl)

/-- Lexemes do not depend on how much was read before. -/
theorem map_lexeme_scan (mode : Mode) (pos : Nat) (s : List Char) :
    (scan mode pos s).map Token.lexeme = lexemes mode s := by
  induction mode, s using steps_induction generalizing pos with
  | nil mode => simp [lexemes, scan]
  | cons mode c s ih =>
    rw [lexemes, scan_cons, scan_cons, List.map_append, List.map_append, ih, ih]
    cases (Step.at mode c s).lexeme <;> rfl

@[simp] theorem lexemes_nil (mode : Mode) : lexemes mode [] = [] := by simp [lexemes, scan]

theorem lexemes_cons (mode : Mode) (c : Char) (s : List Char) :
    lexemes mode (c :: s) =
      (Step.at mode c s).lexeme.toList ++
        lexemes (Step.at mode c s).mode (s.drop (Step.at mode c s).extra) := by
  rw [lexemes, scan_cons, List.map_append, map_lexeme_scan]
  cases (Step.at mode c s).lexeme <;> rfl

theorem parse_eq_build (s : List Char) : parse s = build (lexemes .content s) := rfl

/-! ## Names -/

/-- A text that is a tag name. -/
def isTagName : List Char → Bool
  | [] => false
  | c :: s => isNameStart c && s.all isNameChar

/-- A text that is an attribute name. -/
def isAttributeName (name : List Char) : Bool := !name.isEmpty && name.all isAttributeChar

theorem isNameChar_of_isNameStart {c : Char} (h : isNameStart c = true) : isNameChar c = true := by
  have hw : isWord c = true := by
    simp only [isNameStart, isAsciiLetter, Bool.or_eq_true, Bool.and_eq_true, decide_eq_true_eq,
      beq_iff_eq] at h
    have hc : c.toNat < 0x80 := by
      rcases h with (⟨-, h⟩ | ⟨-, h⟩) | rfl
      · exact Nat.lt_of_le_of_lt h (by decide)
      · exact Nat.lt_of_le_of_lt h (by decide)
      · decide
    simp only [isWord, hc, if_true, isAsciiLetter, Bool.or_eq_true, Bool.and_eq_true,
      decide_eq_true_eq, beq_iff_eq]
    rcases h with h | h
    · exact .inl (.inl h)
    · exact .inr h
  simp [isNameChar, hw]

theorem not_isNameChar_of_isBlank {c : Char} (h : isBlank c = true) : isNameChar c = false :=
  blank_rec (P := fun c => isNameChar c = false) (by decide +kernel) h

theorem isNameChar_of_mem_tag {tag : List Char} (h : isTagName tag = true) {c : Char}
    (hc : c ∈ tag) : isNameChar c = true := by
  cases tag with
  | nil => cases hc
  | cons d s =>
    simp only [isTagName, Bool.and_eq_true, List.all_eq_true] at h
    rcases List.mem_cons.1 hc with rfl | hc
    · exact isNameChar_of_isNameStart h.1
    · exact h.2 c hc

theorem isNameStart_head {c : Char} {s : List Char} (h : isTagName (c :: s) = true) :
    isNameStart c = true := by
  simp only [isTagName, Bool.and_eq_true] at h
  exact h.1

/-- A tag name is read up to the first character that is in none. -/
theorem tagName_append {tag rest : List Char} (ht : isTagName tag = true)
    (hr : Clear isNameChar rest) : tagName (tag ++ rest) = tag := by
  cases tag with
  | nil => cases ht
  | cons c s =>
    simp only [isTagName, Bool.and_eq_true, List.all_eq_true] at ht
    simp [tagName, ht.1, takeWhile_append_clear ht.2 hr]

theorem isTagName_tagName {s : List Char} (h : tagName s ≠ []) : isTagName (tagName s) = true := by
  cases s with
  | nil => exact absurd rfl h
  | cons c s =>
    simp only [tagName] at h ⊢
    split
    · rename_i hc
      simp [isTagName, hc]
    · rename_i hc
      simp [hc] at h

theorem tagName_prefix (s : List Char) : tagName s <+: s := by
  cases s with
  | nil => exact List.nil_prefix
  | cons c s =>
    rw [tagName]
    split
    · exact List.cons_prefix_cons.2 ⟨rfl, List.takeWhile_prefix _⟩
    · exact List.nil_prefix

theorem isNameStart_bang : isNameStart '!' = false := by decide
theorem isNameStart_query : isNameStart '?' = false := by decide
theorem isNameStart_slash : isNameStart '/' = false := by decide

/-! ## Content -/

/-- The class of characters that go on a run of text. -/
abbrev isTextChar (c : Char) : Bool := c ≠ '<'

theorem lexemes_text {text rest : List Char} (hne : text ≠ []) (ht : '<' ∉ text)
    (hr : Clear isTextChar rest) :
    lexemes .content (text ++ rest) = .text text :: lexemes .content rest := by
  cases text with
  | nil => exact absurd rfl hne
  | cons c s =>
    simp only [List.mem_cons, not_or] at ht
    have hs : ∀ d ∈ s, isTextChar d = true := by
      rintro d hd
      simp only [decide_eq_true_eq]
      rintro rfl
      exact ht.2 hd
    have htake : (s ++ rest).takeWhile isTextChar = s := takeWhile_append_clear hs hr
    have hstep : Step.content c (s ++ rest) = ⟨some (.text (c :: s)), s.length, .content⟩ := by
      rw [Step.content, if_neg (Ne.symm ht.1), htake]
    rw [List.cons_append, lexemes_cons, Step.at, hstep]
    simp

theorem lexemes_markup (s : List Char) :
    lexemes .content ('<' :: s) =
      (Step.markup s).lexeme.toList ++
        lexemes (Step.markup s).mode (s.drop (Step.markup s).extra) := by
  rw [lexemes_cons]
  simp [Step.at, Step.content]

theorem lexemes_comment {body : List Char} (hb : occursIn "-->".toList body = false)
    (rest : List Char) :
    lexemes .content ("<!--".toList ++ body ++ "-->".toList ++ rest) =
      .comment body :: lexemes .content rest := by
  have hf : before? ['-', '-', '>'] (body ++ '-' :: '-' :: '>' :: rest) = some body :=
    before?_append_close (by decide) (by simpa [occursIn] using hb) rest
  have hs : Step.markup ('!' :: '-' :: '-' :: (body ++ '-' :: '-' :: '>' :: rest)) =
      ⟨some (.comment body), 3 + body.length + 3, .content⟩ := by
    simp [Step.markup, Step.delimited, hf]
  have hd : ('!' :: '-' :: '-' :: (body ++ '-' :: '-' :: '>' :: rest)).drop
      (3 + body.length + 3) = rest := by
    rw [show 3 + body.length + 3 = body.length + 3 + 3 by omega]
    simp [List.drop_append]
  simp only [String.reduceToList, List.cons_append, List.nil_append, List.append_assoc]
  rw [lexemes_markup, hs, hd]
  rfl

theorem lexemes_cdata {content : List Char} (hc : occursIn "]]>".toList content = false)
    (rest : List Char) :
    lexemes .content ("<![CDATA[".toList ++ content ++ "]]>".toList ++ rest) =
      .cdata content :: lexemes .content rest := by
  have hf : before? [']', ']', '>'] (content ++ ']' :: ']' :: '>' :: rest) = some content :=
    before?_append_close (by decide) (by simpa [occursIn] using hc) rest
  have hs : Step.markup ('!' :: '[' :: 'C' :: 'D' :: 'A' :: 'T' :: 'A' :: '[' ::
      (content ++ ']' :: ']' :: '>' :: rest)) =
      ⟨some (.cdata content), 8 + content.length + 3, .content⟩ := by
    simp [Step.markup, Step.delimited, hf]
  have hd : ('!' :: '[' :: 'C' :: 'D' :: 'A' :: 'T' :: 'A' :: '[' ::
      (content ++ ']' :: ']' :: '>' :: rest)).drop (8 + content.length + 3) = rest := by
    rw [show 8 + content.length + 3 = content.length + 3 + 8 by omega]
    simp [List.drop_append]
  simp only [String.reduceToList, List.cons_append, List.nil_append, List.append_assoc]
  rw [lexemes_markup, hs, hd]
  rfl

/-- The step over a start tag's name. -/
theorem Step.markup_open {tag rest : List Char} (ht : isTagName tag = true)
    (hr : Clear isNameChar rest) :
    Step.markup (tag ++ rest) = ⟨some (.openTag tag), tag.length, .tag⟩ := by
  have hn : tagName (tag ++ rest) = tag := tagName_append ht hr
  cases tag with
  | nil => cases ht
  | cons c s =>
    have hc : isNameStart c = true := isNameStart_head ht
    have h1 : '!' ≠ c := fun e => by rw [← e, isNameStart_bang] at hc; cases hc
    have h2 : '?' ≠ c := fun e => by rw [← e, isNameStart_query] at hc; cases hc
    have h3 : '/' ≠ c := fun e => by rw [← e, isNameStart_slash] at hc; cases hc
    simp only [List.cons_append] at hn ⊢
    simp [Step.markup, h1, h2, h3, hn]

theorem lexemes_open {tag rest : List Char} (ht : isTagName tag = true)
    (hr : Clear isNameChar rest) :
    lexemes .content ('<' :: tag ++ rest) = .openTag tag :: lexemes .tag rest := by
  rw [List.cons_append, lexemes_markup, Step.markup_open ht hr]
  simp

/-- The step over a close tag. -/
theorem Step.markup_close {tag blanks : List Char} (ht : isTagName tag = true)
    (hb : ∀ c ∈ blanks, isBlank c = true) (rest : List Char) :
    Step.markup ('/' :: (tag ++ blanks ++ '>' :: rest)) =
      ⟨some (.closeTag tag), 1 + (tag ++ blanks).length + 1, .content⟩ := by
  have hblank : ∀ c ∈ blanks, isNameChar c = false := fun c hc =>
    not_isNameChar_of_isBlank (hb c hc)
  have hn : tagName (tag ++ blanks) = tag :=
    tagName_append ht (by simpa using Clear.append hblank (clear_nil _))
  have hgt : '>' ∉ tag ++ blanks := by
    intro h
    rcases List.mem_append.1 h with h | h
    · exact absurd (isNameChar_of_mem_tag ht h) (by decide)
    · exact absurd (hb _ h) (by decide)
  have hf : before? ['>'] (tag ++ blanks ++ '>' :: rest) = some (tag ++ blanks) :=
    before?_append_char hgt rest
  have hl : closeLexeme (tag ++ blanks) = some (.closeTag tag) := by
    cases tag with
    | nil => cases ht
    | cons c s => rw [closeLexeme, hn]
  rw [Step.markup]
  simp [-List.append_assoc, Step.delimited, hf, hl]

theorem drop_close (s rest : List Char) :
    ('/' :: (s ++ '>' :: rest)).drop (1 + s.length + 1) = rest := by
  rw [show 1 + s.length + 1 = s.length + 1 + 1 by omega, List.drop_succ_cons,
    List.drop_length_add_append]
  rfl

theorem lexemes_close {tag blanks : List Char} (ht : isTagName tag = true)
    (hb : ∀ c ∈ blanks, isBlank c = true) (rest : List Char) :
    lexemes .content ('<' :: '/' :: tag ++ blanks ++ '>' :: rest) =
      .closeTag tag :: lexemes .content rest := by
  simp only [List.cons_append]
  rw [lexemes_markup, Step.markup_close ht hb, drop_close]
  rfl

/-- A `<` that starts no markup is text. -/
theorem lexemes_lone {s : List Char} (h1 : Clear (· == '!') s) (h2 : Clear (· == '?') s)
    (h3 : Clear (· == '/') s) (h4 : Clear isNameStart s) :
    lexemes .content ('<' :: s) = .text ['<'] :: lexemes .content s := by
  have hs : Step.markup s = ⟨some (.text ['<']), 0, .content⟩ := by
    cases s with
    | nil => rfl
    | cons c s =>
      simp only [clear_cons, beq_eq_false_iff_ne] at h1 h2 h3 h4
      simp [Step.markup, Ne.symm h1, Ne.symm h2, Ne.symm h3, tagName, h4]
  rw [lexemes_markup, hs]
  simp

/-! ## Start tags -/

theorem lexemes_dropBlanks (s : List Char) :
    lexemes .tag (s.dropWhile isBlank) = lexemes .tag s := by
  cases s with
  | nil => rfl
  | cons c s =>
    by_cases hc : isBlank c = true
    · have hstep : Step.tag c s = ⟨none, (s.takeWhile isBlank).length, .tag⟩ := by
        simp [Step.tag, hc]
      rw [lexemes_cons, Step.at, hstep, List.dropWhile_cons_of_pos hc, drop_length_takeWhile]
      rfl
    · rw [List.dropWhile_cons_of_neg hc]

theorem lexemes_blanks {blanks : List Char} (hb : ∀ c ∈ blanks, isBlank c = true)
    (rest : List Char) : lexemes .tag (blanks ++ rest) = lexemes .tag rest := by
  rw [← lexemes_dropBlanks, List.dropWhile_append_of_pos hb, lexemes_dropBlanks]

theorem lexemes_tagEnd (rest : List Char) :
    lexemes .tag ('>' :: rest) = .tagEnd :: lexemes .content rest := by
  have hstep : Step.tag '>' rest = ⟨some .tagEnd, 0, .content⟩ := by
    simp [Step.tag, show isBlank '>' = false by decide]
  rw [lexemes_cons, Step.at, hstep]
  rfl

theorem lexemes_selfClose (rest : List Char) :
    lexemes .tag ('/' :: '>' :: rest) = .selfClose :: lexemes .content rest := by
  have hstep : Step.tag '/' ('>' :: rest) = ⟨some .selfClose, 1, .content⟩ := by
    simp [Step.tag, show isBlank '/' = false by decide]
  rw [lexemes_cons, Step.at, hstep]
  rfl

theorem isAttributeChar_iff {c : Char} : isAttributeChar c = true ↔
    isBlank c = false ∧ c ≠ '=' ∧ c ≠ '/' ∧ c ≠ '>' ∧ c ≠ '"' ∧ c ≠ '\'' ∧ c ≠ '<' := by
  simp [isAttributeChar, and_assoc]

theorem isAttributeChar_of_isNameChar {c : Char} (h : isNameChar c = true) :
    isAttributeChar c = true := by
  have hne : ∀ d, isNameChar d = false → c ≠ d := by
    rintro d hd rfl
    rw [hd] at h
    cases h
  have hb : isBlank c = false := Bool.eq_false_iff.2 fun hb => by
    rw [not_isNameChar_of_isBlank hb] at h
    cases h
  exact isAttributeChar_iff.2 ⟨hb, hne _ (by decide), hne _ (by decide), hne _ (by decide),
    hne _ (by decide), hne _ (by decide), hne _ (by decide)⟩

/-- A name of characters that tag names have too is an attribute name. -/
theorem isAttributeName_of_isNameChar {name : List Char} (hne : name ≠ [])
    (h : name.all isNameChar = true) : isAttributeName name = true := by
  rw [isAttributeName, Bool.and_eq_true]
  refine ⟨by simpa using hne, ?_⟩
  rw [List.all_eq_true] at h ⊢
  exact fun c hc => isAttributeChar_of_isNameChar (h c hc)

/-- The step over an attribute. -/
theorem Step.tag_attribute {c : Char} (hc : isAttributeChar c = true) (s : List Char) :
    Step.tag c s =
      ⟨some (.attribute (c :: s.takeWhile isAttributeChar)
          (attributeValue (s.dropWhile isAttributeChar)).1),
        (s.takeWhile isAttributeChar).length +
          (attributeValue (s.dropWhile isAttributeChar)).2, .tag⟩ := by
  obtain ⟨hblank, -, hslash, hgt, -⟩ := isAttributeChar_iff.1 hc
  rw [← drop_length_takeWhile]
  simp [Step.tag, hblank, hslash, hgt, hc]

/-- An attribute name makes a lexeme with the value that stands behind it. -/
theorem lexemes_attribute {name s : List Char} (hn : isAttributeName name = true)
    (hs : Clear isAttributeChar s) :
    lexemes .tag (name ++ s) =
      .attribute name (attributeValue s).1 :: lexemes .tag (s.drop (attributeValue s).2) := by
  cases name with
  | nil => cases hn
  | cons c name =>
    simp only [isAttributeName, List.isEmpty_cons, Bool.not_false, Bool.true_and, List.all_cons,
      Bool.and_eq_true, List.all_eq_true] at hn
    rw [List.cons_append, lexemes_cons, Step.at, Step.tag_attribute hn.1,
      takeWhile_append_clear hn.2 hs, dropWhile_append_clear hn.2 hs, List.drop_length_add_append]
    rfl

theorem valueAfterEquals_quoted {blanks value : List Char} {q : Char}
    (hb : ∀ c ∈ blanks, isBlank c = true) (hq : isQuote q = true) (hv : q ∉ value)
    (rest : List Char) :
    valueAfterEquals (blanks ++ q :: value ++ q :: rest) =
      (value, blanks.length + value.length + 2) := by
  have hqb : isBlank q = false := by
    simp only [isQuote, Bool.or_eq_true, beq_iff_eq] at hq
    rcases hq with rfl | rfl <;> decide
  have hclear : Clear isBlank (q :: (value ++ q :: rest)) := by simpa using hqb
  simp [valueAfterEquals, takeWhile_append_clear hb hclear, dropWhile_append_clear hb hclear, hq,
    before?_append_char hv rest]

/-- A character that an unquoted value can hold wherever it stands. -/
def isBareChar (c : Char) : Bool := !(isBlank c || isQuote c || c == '>' || c == '/')

theorem bareValue_append {value rest : List Char} (hv : ∀ c ∈ value, isBareChar c = true)
    (hr : bareValue rest = []) : bareValue (value ++ rest) = value := by
  induction value with
  | nil => exact hr
  | cons c value ih =>
    have hc := hv c (by simp)
    simp only [isBareChar, Bool.not_eq_true', Bool.or_eq_false_iff] at hc
    rw [List.cons_append, bareValue, ih fun d hd => hv d (by simp [hd])]
    simp [hc]

theorem valueAfterEquals_bare {blanks value rest : List Char}
    (hb : ∀ c ∈ blanks, isBlank c = true) (hne : value ≠ [])
    (hv : ∀ c ∈ value, isBareChar c = true) (hr : bareValue rest = []) :
    valueAfterEquals (blanks ++ value ++ rest) = (value, blanks.length + value.length) := by
  cases value with
  | nil => exact absurd rfl hne
  | cons c value =>
    have hc := hv c (by simp)
    simp only [isBareChar, Bool.not_eq_true', Bool.or_eq_false_iff] at hc
    have hclear : Clear isBlank (c :: (value ++ rest)) := by simpa using hc.1.1.1
    have hbare : bareValue (c :: (value ++ rest)) = c :: value := bareValue_append hv hr
    simp [valueAfterEquals, takeWhile_append_clear hb hclear, dropWhile_append_clear hb hclear, hc,
      hbare]

theorem attributeValue_equals {blanks : List Char} (hb : ∀ c ∈ blanks, isBlank c = true)
    (s : List Char) :
    attributeValue (blanks ++ '=' :: s) =
      ((valueAfterEquals s).1, blanks.length + 1 + (valueAfterEquals s).2) := by
  have hclear : Clear isBlank ('=' :: s) := by simp [show isBlank '=' = false by decide]
  simp [attributeValue, takeWhile_append_clear hb hclear, dropWhile_append_clear hb hclear]

theorem clear_equals {blanks : List Char} (hb : ∀ c ∈ blanks, isBlank c = true) (s : List Char) :
    Clear isAttributeChar (blanks ++ '=' :: s) := by
  refine Clear.append (fun c hc => ?_) ((clear_cons _ _ _).2 (by decide))
  simp [isAttributeChar, hb c hc]

/-- An attribute with a quoted value. -/
theorem lexemes_quoted {name before after value : List Char} {q : Char}
    (hn : isAttributeName name = true) (hb : ∀ c ∈ before, isBlank c = true)
    (ha : ∀ c ∈ after, isBlank c = true) (hq : isQuote q = true) (hv : q ∉ value)
    (rest : List Char) :
    lexemes .tag (name ++ (before ++ '=' :: (after ++ q :: value ++ q :: rest))) =
      .attribute name value :: lexemes .tag rest := by
  rw [lexemes_attribute hn (clear_equals hb _), attributeValue_equals hb,
    valueAfterEquals_quoted ha hq hv,
    show before ++ '=' :: (after ++ q :: value ++ q :: rest) =
      (before ++ '=' :: (after ++ q :: value ++ [q])) ++ rest by simp,
    List.drop_left' (by simp; omega)]

/-- An attribute with an unquoted value. -/
theorem lexemes_bare {name before after value rest : List Char}
    (hn : isAttributeName name = true) (hb : ∀ c ∈ before, isBlank c = true)
    (ha : ∀ c ∈ after, isBlank c = true) (hne : value ≠ [])
    (hv : ∀ c ∈ value, isBareChar c = true) (hr : bareValue rest = []) :
    lexemes .tag (name ++ (before ++ '=' :: (after ++ value ++ rest))) =
      .attribute name value :: lexemes .tag rest := by
  rw [lexemes_attribute hn (clear_equals hb _), attributeValue_equals hb,
    valueAfterEquals_bare ha hne hv hr,
    show before ++ '=' :: (after ++ value ++ rest) = (before ++ '=' :: (after ++ value)) ++ rest by
      simp,
    List.drop_left' (by simp; omega)]

theorem attributeValue_none {rest : List Char} (he : Clear (· == '=') (rest.dropWhile isBlank)) :
    attributeValue rest = ([], (rest.takeWhile isBlank).length) := by
  rw [attributeValue]
  split
  · rename_i s hs
    simp [hs] at he
  · rfl

/-- An attribute without a value. -/
theorem lexemes_valueless {name rest : List Char} (hn : isAttributeName name = true)
    (hr : Clear isAttributeChar rest) (he : Clear (· == '=') (rest.dropWhile isBlank)) :
    lexemes .tag (name ++ rest) = .attribute name [] :: lexemes .tag rest := by
  rw [lexemes_attribute hn hr, attributeValue_none he, drop_length_takeWhile, lexemes_dropBlanks]

end SvgComponent.Markup
