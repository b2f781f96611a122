import SvgComponent.Component
import SvgComponent.Proofs.Literals
import SvgComponent.Proofs.Outline

/-!
# The markup in source

The marks of a text are the tokens that make its elements: all but text, comments and CDATA sections.
Unlike lexemes of text they do not depend on how text is cut, so text can be read character by character.

* `marksAt`: the marks of a text, with their places, and what they are for each construct.
* `Written`: how source is put together from text and marks, and `Written.marks_eq`: that these are its
  marks.
-/

namespace SvgComponent.Markup

open Text Source

/-! ## Marks -/

/-- Whether a lexeme is part of the markup of an element. -/
def Lexeme.isMark : Lexeme → Bool
  | .text _ => false
  | .comment _ => false
  | .cdata _ => false
  | _ => true

/-- The tokens of the text that is left that are marks, `pos` characters having been read. -/
def marksAt (mode : Mode) (pos : Nat) (s : List Char) : List Token :=
  (scan mode pos s).filter (·.lexeme.isMark)

/-- The marks of the text that is left, without their places. -/
def marks (mode : Mode) (s : List Char) : List Lexeme := (lexemes mode s).filter Lexeme.isMark

theorem map_marksAt (mode : Mode) (pos : Nat) (s : List Char) :
    (marksAt mode pos s).map Token.lexeme = marks mode s := by
  rw [marks, ← map_lexeme_scan mode pos, marksAt, List.filter_map]
  rfl

@[simp] theorem marksAt_nil (mode : Mode) (pos : Nat) : marksAt mode pos [] = [] := by
  simp [marksAt, scan]

theorem marksAt_of_step {mode : Mode} {c : Char} {s : List Char} {step : Step}
    (h : Step.at mode c s = step) (pos : Nat) :
    marksAt mode pos (c :: s) =
      ((step.lexeme.filter Lexeme.isMark).map (⟨·, pos⟩)).toList ++
        marksAt step.mode (pos + step.extra + 1) (s.drop step.extra) := by
  rw [marksAt, scan_cons, h, List.filter_append, marksAt]
  congr 1
  cases step.lexeme with
  | none => rfl
  | some l => cases hl : l.isMark <;> simp [hl, Option.filter]

/-- A step that takes a whole run of characters without a mark can take them one by one. -/
theorem marksAt_run {mode : Mode} {p : Char → Bool}
    (hp : ∀ c s, p c = true → ∃ l, Option.filter Lexeme.isMark l = none ∧
      Step.at mode c s = ⟨l, (s.takeWhile p).length, mode⟩)
    {c : Char} (hc : p c = true) (pos : Nat) (s : List Char) :
    marksAt mode pos (c :: s) = marksAt mode (pos + 1) s := by
  have hrun : ∀ (d : Char) (pos : Nat) (t : List Char), p d = true →
      marksAt mode pos (d :: t) =
        marksAt mode (pos + (t.takeWhile p).length + 1) (t.dropWhile p) := by
    intro d pos t hd
    obtain ⟨l, hl, hstep⟩ := hp d t hd
    rw [marksAt_of_step hstep, hl, drop_length_takeWhile]
    rfl
  rw [hrun c pos s hc]
  cases s with
  | nil => simp
  | cons d s =>
    cases hd : p d with
    | false => simp [hd]
    | true =>
      rw [hrun d (pos + 1) s hd, List.takeWhile_cons_of_pos hd, List.dropWhile_cons_of_pos hd,
        List.length_cons]
      congr 1
      omega

/-- Text holds no marks. -/
theorem marksAt_text {c : Char} (hc : c ≠ '<') (pos : Nat) (s : List Char) :
    marksAt .content pos (c :: s) = marksAt .content (pos + 1) s := by
  refine marksAt_run (p := isTextChar) (fun d t hd => ?_) (by simpa using hc) pos s
  refine ⟨some (.text (d :: t.takeWhile isTextChar)), rfl, ?_⟩
  rw [Step.at, Step.content, if_neg (by simpa using hd)]

theorem marksAt_append_text {text : List Char} (ht : '<' ∉ text) (pos : Nat) (s : List Char) :
    marksAt .content pos (text ++ s) = marksAt .content (pos + text.length) s := by
  induction text generalizing pos with
  | nil => rfl
  | cons c text ih =>
    simp only [List.mem_cons, not_or] at ht
    rw [List.cons_append, marksAt_text (Ne.symm ht.1), ih ht.2, List.length_cons]
    congr 1
    omega

/-- A `<` in front of a quotation mark is text. -/
theorem marksAt_lone (pos : Nat) (s : List Char) :
    marksAt .content pos ('<' :: '"' :: s) = marksAt .content (pos + 2) s := by
  have hstep : Step.at .content '<' ('"' :: s) = ⟨some (.text ['<']), 0, .content⟩ := by
    simp [Step.at, Step.content, Step.markup, tagName, show isNameStart '"' = false by decide]
  rw [marksAt_of_step hstep, List.drop_zero, marksAt_text (by decide)]
  rfl

theorem marksAt_open {tag rest : List Char} (ht : isTagName tag = true)
    (hr : Clear isNameChar rest) (pos : Nat) :
    marksAt .content pos ('<' :: (tag ++ rest)) =
      ⟨.openTag tag, pos⟩ :: marksAt .tag (pos + tag.length + 1) rest := by
  have hstep : Step.at .content '<' (tag ++ rest) = ⟨some (.openTag tag), tag.length, .tag⟩ := by
    rw [Step.at, Step.content, if_pos rfl, Step.markup_open ht hr]
  rw [marksAt_of_step hstep, List.drop_left]
  rfl

theorem marksAt_close {tag : List Char} (ht : isTagName tag = true) (pos : Nat) (rest : List Char) :
    marksAt .content pos ('<' :: '/' :: (tag ++ '>' :: rest)) =
      ⟨.closeTag tag, pos⟩ :: marksAt .content (pos + tag.length + 3) rest := by
  have hclose := Step.markup_close ht (show ∀ c ∈ ([] : List Char), isBlank c = true by simp) rest
  rw [List.append_nil] at hclose
  have hstep : Step.at .content '<' ('/' :: (tag ++ '>' :: rest)) =
      ⟨some (.closeTag tag), 1 + tag.length + 1, .content⟩ := by
    rw [Step.at, Step.content, if_pos rfl, hclose]
  rw [marksAt_of_step hstep, drop_close, show pos + tag.length + 3 = pos + (1 + tag.length + 1) + 1 by
    omega]
  rfl

/-- Inside a start tag blanks are skipped. -/
theorem marksAt_blank {b : Char} (hb : isBlank b = true) (pos : Nat) (s : List Char) :
    marksAt .tag pos (b :: s) = marksAt .tag (pos + 1) s := by
  refine marksAt_run (p := isBlank) (fun d t hd => ⟨none, rfl, ?_⟩) hb pos s
  simp [Step.at, Step.tag, hd]

theorem marksAt_dropBlanks (pos : Nat) (s : List Char) :
    marksAt .tag pos s =
      marksAt .tag (pos + (s.takeWhile isBlank).length) (s.dropWhile isBlank) := by
  induction s generalizing pos with
  | nil => rfl
  | cons c s ih =>
    cases hc : isBlank c with
    | false => simp [hc]
    | true =>
      rw [marksAt_blank hc, ih, List.takeWhile_cons_of_pos hc, List.dropWhile_cons_of_pos hc,
        List.length_cons]
      congr 1
      omega

/-- An attribute name makes a mark with the value that stands behind it. -/
theorem marksAt_name {name s : List Char} (hn : isAttributeName name = true)
    (hs : Clear isAttributeChar s) (pos : Nat) :
    marksAt .tag pos (name ++ s) =
      ⟨.attribute name (attributeValue s).1, pos⟩ ::
        marksAt .tag (pos + name.length + (attributeValue s).2) (s.drop (attributeValue s).2) := by
  cases name with
  | nil => cases hn
  | cons c name =>
    simp only [isAttributeName, List.isEmpty_cons, Bool.not_false, Bool.true_and, List.all_cons,
      Bool.and_eq_true, List.all_eq_true] at hn
    have hstep : Step.at .tag c (name ++ s) = _ := Step.tag_attribute hn.1 (name ++ s)
    rw [takeWhile_append_clear hn.2 hs, dropWhile_append_clear hn.2 hs] at hstep
    rw [List.cons_append, marksAt_of_step hstep, List.drop_length_add_append, List.length_cons,
      show pos + (name.length + (attributeValue s).2) + 1 =
        pos + (name.length + 1) + (attributeValue s).2 by omega]
    rfl

theorem marksAt_quoted {name value : List Char} {q : Char} (hn : isAttributeName name = true)
    (hq : isQuote q = true) (hv : q ∉ value) (pos : Nat) (rest : List Char) :
    marksAt .tag pos (name ++ '=' :: q :: (value ++ q :: rest)) =
      ⟨.attribute name value, pos⟩ ::
        marksAt .tag (pos + name.length + value.length + 3) rest := by
  have hnone : ∀ c ∈ ([] : List Char), isBlank c = true := by simp
  have hvalue := attributeValue_equals hnone (q :: (value ++ q :: rest))
  have hquoted := valueAfterEquals_quoted hnone hq hv rest
  simp only [List.nil_append, List.cons_append] at hvalue hquoted
  rw [hquoted] at hvalue
  have hequals : Clear isAttributeChar ('=' :: q :: (value ++ q :: rest)) := clear_equals hnone _
  rw [marksAt_name hn hequals, hvalue,
    show '=' :: q :: (value ++ q :: rest) = ('=' :: q :: (value ++ [q])) ++ rest by simp,
    List.drop_left' (by simp; omega)]
  congr 2
  simp
  omega

theorem marksAt_valueless {name rest : List Char} (hn : isAttributeName name = true)
    (hr : Clear isAttributeChar rest) (he : Clear (· == '=') (rest.dropWhile isBlank)) (pos : Nat) :
    marksAt .tag pos (name ++ rest) =
      ⟨.attribute name [], pos⟩ :: marksAt .tag (pos + name.length) rest := by
  rw [marksAt_name hn hr, attributeValue_none he, drop_length_takeWhile,
    marksAt_dropBlanks (pos + name.length)]

theorem marksAt_tagEnd (pos : Nat) (s : List Char) :
    marksAt .tag pos ('>' :: s) = ⟨.tagEnd, pos⟩ :: marksAt .content (pos + 1) s := by
  have hstep : Step.at .tag '>' s = ⟨some .tagEnd, 0, .content⟩ := by
    simp [Step.at, Step.tag, show isBlank '>' = false by decide]
  rw [marksAt_of_step hstep]
  rfl

theorem marksAt_selfClose (pos : Nat) (s : List Char) :
    marksAt .tag pos ('/' :: '>' :: s) = ⟨.selfClose, pos⟩ :: marksAt .content (pos + 2) s := by
  have hstep : Step.at .tag '/' ('>' :: s) = ⟨some .selfClose, 1, .content⟩ := by
    simp [Step.at, Step.tag, show isBlank '/' = false by decide]
  rw [marksAt_of_step hstep]
  rfl

/-! ## Source with its marks -/

theorem isNameChar_facts {c : Char} (h : isNameChar c = true) :
    isBlank c = false ∧ isStringQuote c = false ∧ isLoose c = false ∧ isTight c = false := by
  have hne : ∀ d, isNameChar d = false → c ≠ d := by
    rintro d hd rfl
    rw [hd] at h
    cases h
  refine ⟨Bool.eq_false_iff.2 fun hb => ?_, ?_, ?_, ?_⟩
  · rw [not_isNameChar_of_isBlank hb] at h
    cases h
  · simp [isStringQuote, hne '"' (by decide), hne '\'' (by decide)]
  · simp [isLoose, isPunctuation, hne '>' (by decide), hne '\x7b' (by decide),
      hne '\x7d' (by decide), hne '=' (by decide), hne ',' (by decide), hne ';' (by decide)]
  · simp [isTight, isPunctuation, hne '<' (by decide), hne '\x7b' (by decide),
      hne '\x7d' (by decide), hne '=' (by decide), hne ',' (by decide), hne ';' (by decide)]

/-- The end of a start tag. -/
def tagEnding (selfClosed : Bool) : List Char := if selfClosed then [' ', '/', '>'] else ['>']

/-- The lexeme that the end of a start tag makes. -/
def endLexeme (selfClosed : Bool) : Lexeme := if selfClosed then .selfClose else .tagEnd

/-- Source as it is written, with its marks. In `calm` source a quotation mark stands only where its
counterpart comes before any other code. -/
inductive Written (calm : Bool) : Mode → List Char → List Lexeme → Prop
  | nil : Written calm .content [] []
  | char {c : Char} {s : List Char} {ls : List Lexeme} : c ≠ '<' →
      (calm = true → isStringQuote c = false) → Written calm .content s ls →
      Written calm .content (c :: s) ls
  | literal {q : Char} {v s : List Char} {ls : List Lexeme} : isStringQuote q = true → q ∉ v →
      '<' ∉ v → Written calm .content s ls → Written calm .content (q :: (v ++ q :: s)) ls
  | angle {s : List Char} {ls : List Lexeme} : Written calm .content s ls →
      Written calm .content ('"' :: '<' :: '"' :: s) ls
  | openTag {tag s : List Char} {ls : List Lexeme} : isTagName tag = true →
      Written calm .tag s ls → Written calm .content ('<' :: (tag ++ s)) (.openTag tag :: ls)
  | closeTag {tag s : List Char} {ls : List Lexeme} : isTagName tag = true →
      Written calm .content s ls →
      Written calm .content ('<' :: '/' :: (tag ++ '>' :: s)) (.closeTag tag :: ls)
  | attribute {name v s : List Char} {q : Char} {ls : List Lexeme} : name ≠ [] →
      name.all isNameChar = true → isQuote q = true → q ∉ v → Written calm .tag s ls →
      Written calm .tag (' ' :: (name ++ '=' :: q :: (v ++ q :: s))) (.attribute name v :: ls)
  | ending {s : List Char} {ls : List Lexeme} (selfClosed : Bool) : Written calm .content s ls →
      Written calm .tag (tagEnding selfClosed ++ s) (endLexeme selfClosed :: ls)
  | spread {s : List Char} {ls : List Lexeme} (selfClosed : Bool) : Written calm .content s ls →
      Written calm .tag (' ' :: (Component.propsSpread ++ (tagEnding selfClosed ++ s)))
        (.attribute Component.propsSpread [] :: endLexeme selfClosed :: ls)

theorem marksAt_ending (selfClosed : Bool) (pos : Nat) (s : List Char) :
    ∃ n, marksAt .tag pos (tagEnding selfClosed ++ s) =
      ⟨endLexeme selfClosed, n⟩ ::
        marksAt .content (pos + (tagEnding selfClosed).length) s := by
  cases selfClosed with
  | false => exact ⟨pos, marksAt_tagEnd pos s⟩
  | true =>
    refine ⟨pos + 1, ?_⟩
    exact (marksAt_blank (by decide) pos _).trans (marksAt_selfClose (pos + 1) s)

theorem isAttributeName_propsSpread : isAttributeName Component.propsSpread = true := by
  decide +kernel

theorem marksAt_spread (selfClosed : Bool) (pos : Nat) (s : List Char) :
    marksAt .tag pos (Component.propsSpread ++ (tagEnding selfClosed ++ s)) =
      ⟨.attribute Component.propsSpread [], pos⟩ ::
        marksAt .tag (pos + Component.propsSpread.length) (tagEnding selfClosed ++ s) := by
  refine marksAt_valueless isAttributeName_propsSpread ?_ ?_ pos
  · cases selfClosed <;> exact (clear_cons _ _ _).2 (by decide)
  · cases selfClosed <;> exact (clear_cons _ _ _).2 (by decide)

/-- What follows a tag's name is no part of it. -/
theorem Written.clear_isNameChar {calm : Bool} {s : List Char} {ls : List Lexeme}
    (h : Written calm .tag s ls) : Clear isNameChar s := by
  cases h with
  | «attribute» => exact (clear_cons _ _ _).2 (by decide)
  | ending selfClosed => cases selfClosed <;> exact (clear_cons _ _ _).2 (by decide)
  | spread => exact (clear_cons _ _ _).2 (by decide)

/-- **The marks of source are those it is written with.** -/
theorem Written.marks_eq {calm : Bool} {mode : Mode} {s : List Char} {ls : List Lexeme}
    (h : Written calm mode s ls) : marks mode s = ls := by
  suffices h' : ∀ pos, (marksAt mode pos s).map Token.lexeme = ls by rw [← map_marksAt mode 0, h']
  induction h with
  | nil => simp
  | char hc _ _ ih => exact fun pos => by rw [marksAt_text hc, ih]
  | @literal q v s ls hq hv hlt _ ih =>
    have hq' : q ≠ '<' := (isStringQuote_facts hq).2.2.2.1
    exact fun pos => by rw [marksAt_text hq', marksAt_append_text hlt, marksAt_text hq', ih]
  | angle _ ih => exact fun pos => by rw [marksAt_text (by decide), marksAt_lone, ih]
  | openTag ht hs ih =>
    exact fun pos => by rw [marksAt_open ht hs.clear_isNameChar, List.map_cons, ih]
  | closeTag ht _ ih => exact fun pos => by rw [marksAt_close ht, List.map_cons, ih]
  | «attribute» hne hn hq hv _ ih =>
    intro pos
    rw [marksAt_blank (by decide), marksAt_quoted (isAttributeName_of_isNameChar hne hn) hq hv,
      List.map_cons, ih]
  | ending selfClosed _ ih =>
    intro pos
    obtain ⟨n, h⟩ := marksAt_ending selfClosed pos _
    rw [h, List.map_cons, ih]
  | spread selfClosed _ ih =>
    intro pos
    obtain ⟨n, h⟩ := marksAt_ending selfClosed (pos + 1 + Component.propsSpread.length) _
    rw [marksAt_blank (by decide), marksAt_spread, List.map_cons, h, List.map_cons, ih]

end SvgComponent.Markup
