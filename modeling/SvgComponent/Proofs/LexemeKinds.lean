import Mathlib.Computability.RegularExpressions
import SvgComponent.Proofs.Building
import SvgComponent.Proofs.TokenGrammar

/-!
# The grammar of lexemes

The kinds of the lexemes of a text form a word of the regular expression `grammar`: content, close tags
and complete start tags in any order, and at most one start tag that is cut off, at the very end. Every word
of it comes from a text.

A builder that is fed with the lexemes of a text therefore has a start tag pending exactly in front of the
lexemes that belong into one: it never meets an attribute or the end of a start tag without one, and never
loses one to the next start tag.

* `LexemeKind`, `grammar`: kinds of lexemes and the order they come in.
* `Follows`: the kinds that can follow in a mode; `Follows.cons` is one lexeme, `Phrase.follows` a whole phrase.
* `exists_text`: a text for each word of the grammar.
* `Builder.after?`, `Builder.Suits`: the builder behind some lexemes, and that it has a start tag pending
  exactly inside a start tag.
-/

namespace SvgComponent.Markup

open Text RegularExpression

/-! ## Kinds -/

/-- The kinds of lexemes. -/
inductive LexemeKind where
  | text
  | comment
  | cdata
  | openTag
  | attribute
  | tagEnd
  | selfClose
  | closeTag
  deriving DecidableEq, Repr

/-- The kind of a lexeme. -/
def Lexeme.kind : Lexeme → LexemeKind
  | .text _ => .text
  | .comment _ => .comment
  | .cdata _ => .cdata
  | .openTag _ => .openTag
  | .attribute _ _ => .attribute
  | .tagEnd => .tagEnd
  | .selfClose => .selfClose
  | .closeTag _ => .closeTag

/-- The kinds that stand inside a start tag, behind its name. -/
def LexemeKind.isInner : LexemeKind → Bool
  | .attribute | .tagEnd | .selfClose => true
  | _ => false

/-- A start tag without its end. -/
def tagHead : RegularExpression LexemeKind := char .openTag * star (char .attribute)

/-- The end of a start tag. -/
def tagClosing : RegularExpression LexemeKind := char .tagEnd + char .selfClose

/-- What a text consists of. -/
def construct : RegularExpression LexemeKind :=
  char .text + char .comment + char .cdata + char .closeTag + tagHead * tagClosing

/-- The kinds of the lexemes of a text. A start tag without its end can only be the last thing. -/
def grammar : RegularExpression LexemeKind := star construct * (1 + tagHead)

/-! ## Words of the grammar -/

theorem mem_char {α : Type} {a : α} {w : List α} : w ∈ (char a).matches' ↔ w = [a] := Iff.rfl

theorem mem_star_char {α : Type} {a : α} {w : List α} :
    w ∈ (star (char a)).matches' ↔ ∃ n, w = List.replicate n a := by
  rw [matches'_star, Language.mem_kstar]
  constructor
  · rintro ⟨parts, rfl, hparts⟩
    refine ⟨parts.length, ?_⟩
    have h : parts = List.replicate parts.length [a] := List.eq_replicate_of_mem hparts
    rw [h, List.flatten_replicate_singleton, List.length_replicate]
  · rintro ⟨n, rfl⟩
    refine ⟨List.replicate n [a], List.flatten_replicate_singleton.symm, ?_⟩
    intro v hv
    exact List.eq_of_mem_replicate hv

theorem mem_tagHead {w : List LexemeKind} :
    w ∈ tagHead.matches' ↔ ∃ n, w = .openTag :: List.replicate n .attribute := by
  rw [tagHead, matches'_mul, Language.mem_mul]
  constructor
  · rintro ⟨a, ha, b, hb, rfl⟩
    obtain ⟨n, rfl⟩ := mem_star_char.1 hb
    rw [mem_char.1 ha]
    exact ⟨n, rfl⟩
  · rintro ⟨n, rfl⟩
    exact ⟨_, mem_char.2 rfl, _, mem_star_char.2 ⟨n, rfl⟩, rfl⟩

theorem mem_tagClosing {w : List LexemeKind} :
    w ∈ tagClosing.matches' ↔ w = [.tagEnd] ∨ w = [.selfClose] := by
  rw [tagClosing, matches'_add, Language.mem_add, mem_char, mem_char]

theorem mem_construct {w : List LexemeKind} :
    w ∈ construct.matches' ↔
      w = [.text] ∨ w = [.comment] ∨ w = [.cdata] ∨ w = [.closeTag] ∨
        ∃ v ∈ tagHead.matches', ∃ e ∈ tagClosing.matches', v ++ e = w := by
  simp only [construct, matches'_add, matches'_mul, Language.mem_add, Language.mem_mul, mem_char,
    or_assoc]

theorem mem_grammar {w : List LexemeKind} :
    w ∈ grammar.matches' ↔
      ∃ parts : List (List LexemeKind), (∀ v ∈ parts, v ∈ construct.matches') ∧
        ∃ last, (last = [] ∨ last ∈ tagHead.matches') ∧ w = parts.flatten ++ last := by
  rw [grammar, matches'_mul, Language.mem_mul]
  constructor
  · rintro ⟨a, ha, last, hlast, rfl⟩
    rw [matches'_star, Language.mem_kstar] at ha
    obtain ⟨parts, rfl, hparts⟩ := ha
    exact ⟨parts, hparts, last, hlast, rfl⟩
  · rintro ⟨parts, hparts, last, hlast, rfl⟩
    exact ⟨parts.flatten, Language.join_mem_kstar hparts, last, hlast, rfl⟩

theorem append_mem_grammar {v w : List LexemeKind} (hv : v ∈ construct.matches')
    (hw : w ∈ grammar.matches') : v ++ w ∈ grammar.matches' := by
  obtain ⟨parts, hparts, last, hlast, rfl⟩ := mem_grammar.1 hw
  refine mem_grammar.2 ⟨v :: parts, ?_, last, hlast, by simp⟩
  intro u hu
  rcases List.mem_cons.1 hu with rfl | hu
  · exact hv
  · exact hparts u hu

/-- What can follow in a mode: any word in content, and inside a start tag attributes up to its end or the
end of the text. -/
def Follows : Mode → List LexemeKind → Prop
  | .content, w => w ∈ grammar.matches'
  | .tag, w => ∃ n, w = List.replicate n .attribute ∨
      ∃ e ∈ tagClosing.matches', ∃ v ∈ grammar.matches', w = List.replicate n .attribute ++ e ++ v

/-- The name of a start tag in front of the rest of it. -/
theorem Follows.openTag {w : List LexemeKind} (h : Follows .tag w) : Follows .content (.openTag :: w) := by
  obtain ⟨n, rfl | ⟨e, he, v, hv, rfl⟩⟩ := h
  · exact mem_grammar.2 ⟨[], by simp, _, .inr (mem_tagHead.2 ⟨n, rfl⟩), rfl⟩
  · have htag := mem_construct.2 (.inr (.inr (.inr (.inr
      ⟨_, mem_tagHead.2 ⟨n, rfl⟩, e, he, rfl⟩))))
    exact append_mem_grammar htag hv

theorem Follows.attribute {w : List LexemeKind} (h : Follows .tag w) : Follows .tag (.attribute :: w) := by
  obtain ⟨n, rfl | ⟨e, he, v, hv, rfl⟩⟩ := h
  · exact ⟨n + 1, .inl rfl⟩
  · exact ⟨n + 1, .inr ⟨e, he, v, hv, rfl⟩⟩

theorem Follows.closing {w e : List LexemeKind} (he : e ∈ tagClosing.matches') (h : Follows .content w) :
    Follows .tag (e ++ w) :=
  ⟨0, .inr ⟨e, he, w, h, rfl⟩⟩

/-- One lexeme in front of what can follow it. -/
theorem Follows.cons {mode mode' : Mode} {l : Lexeme} {w : List LexemeKind} (hl : l.Leads mode mode')
    (h : Follows mode' w) : Follows mode (l.kind :: w) := by
  cases hl with
  | text => exact append_mem_grammar (mem_construct.2 (.inl rfl)) h
  | comment => exact append_mem_grammar (mem_construct.2 (.inr (.inl rfl))) h
  | cdata => exact append_mem_grammar (mem_construct.2 (.inr (.inr (.inl rfl)))) h
  | closeTag => exact append_mem_grammar (mem_construct.2 (.inr (.inr (.inr (.inl rfl))))) h
  | openTag => exact h.openTag
  | «attribute» => exact h.attribute
  | tagEnd => exact .closing (mem_tagClosing.2 (.inl rfl)) h
  | selfClose => exact .closing (mem_tagClosing.2 (.inr rfl)) h

/-- **The kinds of a phrase** can follow in its mode. -/
theorem Phrase.follows {mode : Mode} {ls : List Lexeme} (h : Phrase mode ls) :
    Follows mode (ls.map Lexeme.kind) := by
  induction h with
  | @nil mode =>
    cases mode with
    | content => exact mem_grammar.2 ⟨[], by simp, [], .inl rfl, rfl⟩
    | tag => exact ⟨0, .inl rfl⟩
  | cons hl _ ih => exact ih.cons hl

/-! ## Texts for words -/

/-- The kinds of the lexemes of the text that is left. -/
def kinds (mode : Mode) (s : List Char) : List LexemeKind := (lexemes mode s).map Lexeme.kind

/-- The text goes on with nothing that an attribute name in front of it could take in. -/
def Separate (s : List Char) : Prop :=
  Clear isAttributeChar s ∧ Clear (· == '=') (s.dropWhile isBlank)

/-- Attributes without values. -/
theorem kinds_attributes (n : Nat) {rest : List Char} (hr : Separate rest) :
    Separate ((List.replicate n " a".toList).flatten ++ rest) ∧
      kinds .tag ((List.replicate n " a".toList).flatten ++ rest) =
        List.replicate n .attribute ++ kinds .tag rest := by
  induction n with
  | zero => exact ⟨hr, rfl⟩
  | succ n ih =>
    obtain ⟨hsep, hkinds⟩ := ih
    have hcons : (List.replicate (n + 1) " a".toList).flatten ++ rest =
        [' '] ++ (['a'] ++ ((List.replicate n " a".toList).flatten ++ rest)) := by
      simp [List.replicate_succ]
    rw [hcons]
    refine ⟨⟨by simp; decide, by simp [show isBlank ' ' = true by decide,
      show isBlank 'a' = false by decide]⟩, ?_⟩
    unfold kinds
    rw [lexemes_blanks (forall_mem_of_all (by decide)), lexemes_valueless (by decide) hsep.1 hsep.2,
      List.map_cons]
    exact congrArg (LexemeKind.attribute :: ·) hkinds

/-- A start tag without its end. -/
theorem exists_text_tagHead {w : List LexemeKind} (hw : w ∈ tagHead.matches') :
    ∃ t, t.head? = some '<' ∧
      ∀ rest, Separate rest → kinds .content (t ++ rest) = w ++ kinds .tag rest := by
  obtain ⟨n, rfl⟩ := mem_tagHead.1 hw
  refine ⟨"<a".toList ++ (List.replicate n " a".toList).flatten, rfl, ?_⟩
  intro rest hr
  obtain ⟨hsep, hkinds⟩ := kinds_attributes n hr
  have hclear : Clear isNameChar ((List.replicate n " a".toList).flatten ++ rest) := by
    intro c hc
    by_contra hname
    exact absurd (hsep.1 c hc) (by
      rw [isAttributeChar_of_isNameChar (Bool.eq_true_of_not_eq_false hname)]; decide)
  have hopen := lexemes_open (show isTagName ['a'] = true by decide) hclear
  rw [List.append_assoc]
  exact (congrArg (List.map Lexeme.kind) hopen).trans (congrArg (LexemeKind.openTag :: ·) hkinds)

/-- A construct, in front of other constructs. -/
theorem exists_text_construct {w : List LexemeKind} (hw : w ∈ construct.matches') :
    ∃ t, t.head? = some '<' ∧
      ∀ rest, Clear isTextChar rest → kinds .content (t ++ rest) = w ++ kinds .content rest := by
  rcases mem_construct.1 hw with rfl | rfl | rfl | rfl | ⟨v, hv, e, he, rfl⟩
  · refine ⟨['<'], rfl, ?_⟩
    intro rest hr
    -- only another `<` can stand behind it, which starts no markup
    have hne : ∀ p : Char → Bool, p '<' = false → Clear p rest := by
      intro p hp c hc
      have hlt := hr c hc
      simp only [isTextChar, ne_eq, decide_not, Bool.not_eq_false', decide_eq_true_eq] at hlt
      rw [hlt, hp]
    have hlone := lexemes_lone (hne (· == '!') (by decide)) (hne (· == '?') (by decide))
      (hne (· == '/') (by decide)) (hne isNameStart (by decide))
    exact congrArg (List.map Lexeme.kind) hlone
  · refine ⟨"<!---->".toList, rfl, ?_⟩
    intro rest _
    exact congrArg (List.map Lexeme.kind) (@lexemes_comment [] rfl rest)
  · refine ⟨"<![CDATA[]]>".toList, rfl, ?_⟩
    intro rest _
    exact congrArg (List.map Lexeme.kind) (@lexemes_cdata [] rfl rest)
  · refine ⟨"</a>".toList, rfl, ?_⟩
    intro rest _
    exact congrArg (List.map Lexeme.kind)
      (@lexemes_close ['a'] [] (by decide) (by simp) rest)
  · obtain ⟨t, ht, htag⟩ := exists_text_tagHead hv
    rcases mem_tagClosing.1 he with rfl | rfl
    · refine ⟨t ++ ['>'], by simp [ht], ?_⟩
      intro rest _
      have hsep : Separate ('>' :: rest) := ⟨by simp; decide, by simp [show isBlank '>' = false by decide]⟩
      rw [List.append_assoc, List.append_assoc, List.singleton_append, htag _ hsep, kinds, lexemes_tagEnd]
      rfl
    · refine ⟨t ++ ['/', '>'], by simp [ht], ?_⟩
      intro rest _
      have hsep : Separate ('/' :: '>' :: rest) :=
        ⟨by simp; decide, by simp [show isBlank '/' = false by decide]⟩
      rw [List.append_assoc, List.append_assoc, List.cons_append, List.singleton_append, htag _ hsep, kinds,
        lexemes_selfClose]
      rfl

theorem clear_of_head {t : List Char} (h : t.head? = some '<') (rest : List Char) :
    Clear isTextChar (t ++ rest) := by
  intro c hc
  rw [List.head?_append, h] at hc
  cases hc
  rfl

/-- **Every word of the grammar comes from a text.** -/
theorem exists_text {w : List LexemeKind} (hw : w ∈ grammar.matches') : ∃ s, kinds .content s = w := by
  obtain ⟨parts, hparts, last, hlast, rfl⟩ := mem_grammar.1 hw
  -- a text for the parts can stand in front of any other text that starts with `<`
  suffices h : ∃ s, Clear isTextChar s ∧ kinds .content s = parts.flatten ++ last by
    obtain ⟨s, -, hs⟩ := h
    exact ⟨s, hs⟩
  clear hw
  induction parts with
  | nil =>
    rcases hlast with rfl | hlast
    · exact ⟨[], clear_nil _, by simp [kinds]⟩
    · obtain ⟨t, ht, htag⟩ := exists_text_tagHead hlast
      refine ⟨t, by simpa using clear_of_head ht [], ?_⟩
      simpa [kinds] using htag [] ⟨clear_nil _, clear_nil _⟩
  | cons v parts ih =>
    have hv : v ∈ construct.matches' := hparts v (by simp)
    have hrest : ∀ u ∈ parts, u ∈ construct.matches' := by
      intro u hu
      exact hparts u (by simp [hu])
    obtain ⟨t, ht, hkinds⟩ := exists_text_construct hv
    obtain ⟨s, hclear, hs⟩ := ih hrest
    refine ⟨t ++ s, clear_of_head ht s, ?_⟩
    rw [hkinds s hclear, hs, List.flatten_cons, List.append_assoc]

/-! ## Start tags that are pending -/

/-- The builder behind some lexemes, unless the root is finished by then. -/
def Builder.after? (b : Builder) : List Lexeme → Option Builder
  | [] => some b
  | l :: ls =>
    match b.feed l with
    | .more b' => b'.after? ls
    | .done _ => none

/-- The builder has a start tag pending exactly inside a start tag. -/
def Builder.Suits (b : Builder) (mode : Mode) : Prop := b.pending.isSome = true ↔ mode = .tag

theorem Builder.pending_close {b b' : Builder} {name : List Char} (h : b.close name = .more b') :
    b'.pending = b.pending := by
  unfold Builder.close at h
  repeat' split at h
  all_goals cases h <;> rfl

/-- One lexeme of the mode keeps the builder in step with the reader. -/
theorem Builder.Suits.feed {b b' : Builder} {mode mode' : Mode} {l : Lexeme} (hb : b.Suits mode)
    (hl : l.Leads mode mode') (h : b.feed l = .more b') : b'.Suits mode' := by
  unfold Builder.Suits at hb ⊢
  cases hl with
  | text => cases h; exact hb
  | comment => cases h; exact hb
  | cdata => cases h; exact hb
  | closeTag => rw [Builder.pending_close h]; exact hb
  | openTag => cases h; simp
  | «attribute» => cases h; simpa using hb
  | tagEnd =>
    obtain ⟨e, he⟩ := Option.isSome_iff_exists.1 (hb.2 rfl)
    simp only [Builder.feed, he] at h
    simp [Builder.pending_start h]
  | selfClose =>
    obtain ⟨e, he⟩ := Option.isSome_iff_exists.1 (hb.2 rfl)
    simp only [Builder.feed, he] at h
    simp [Builder.pending_start h]

/-- The lexemes of a phrase keep the builder in step with the reader, and what is left of the phrase is fed to
the builder behind them. -/
theorem Builder.Suits.after {b b' : Builder} {mode : Mode} {before ls : List Lexeme} (hb : b.Suits mode)
    (hls : Phrase mode (before ++ ls)) (h : b.after? before = some b') :
    (∃ mode', Phrase mode' ls ∧ b'.Suits mode') ∧ b.run (before ++ ls) = b'.run ls := by
  induction before generalizing b mode with
  | nil =>
    obtain rfl := Option.some.inj h
    exact ⟨⟨mode, hls, hb⟩, rfl⟩
  | cons l before ih =>
    obtain ⟨mode', hl, hrest⟩ : ∃ mode', l.Leads mode mode' ∧ Phrase mode' (before ++ ls) := by
      cases hls with
      | cons hl hrest => exact ⟨_, hl, hrest⟩
    rw [Builder.after?] at h
    cases hf : b.feed l with
    | done root =>
      rw [hf] at h
      cases h
    | more b₁ =>
      rw [hf] at h
      rw [List.cons_append, Builder.run, hf]
      exact ih (hb.feed hl hf) hrest h

/-- A lexeme of a mode belongs into a start tag exactly if the mode says so. -/
theorem isInner_kind {mode mode' : Mode} {l : Lexeme} (h : l.Leads mode mode') :
    l.kind.isInner = true ↔ mode = .tag := by
  cases h <;> simp [Lexeme.kind, LexemeKind.isInner]

/-- **The order of lexemes.** The kinds of the lexemes of texts are exactly the words of the grammar; and
wherever the builder stands when it is fed with the lexemes of a text, it has a start tag pending exactly if the
next one belongs into a start tag. -/
theorem kinds_tokenize :
    (∀ w : List LexemeKind, (∃ s, (tokenize s).map (·.lexeme.kind) = w) ↔ w ∈ grammar.matches') ∧
      ∀ (s : List Char) (before after : List Lexeme) (l : Lexeme) (b : Builder),
        (tokenize s).map Token.lexeme = before ++ l :: after → Builder.after? {} before = some b →
          parse s = b.run (l :: after) ∧ (b.pending.isSome = true ↔ l.kind.isInner = true) := by
  have hkinds : ∀ s, (tokenize s).map (·.lexeme.kind) = kinds .content s := by
    intro s
    rw [kinds, lexemes, tokenize, List.map_map]
    rfl
  constructor
  · intro w
    constructor
    · rintro ⟨s, rfl⟩
      rw [hkinds]
      exact (phrase_lexemes .content s).follows
    · intro hw
      obtain ⟨s, rfl⟩ := exists_text hw
      exact ⟨s, hkinds s⟩
  · intro s before after l b hs hb
    have hphrase : Phrase .content (before ++ l :: after) := by
      rw [← hs]
      exact phrase_lexemes .content s
    have hempty : Builder.Suits {} .content := by simp [Builder.Suits]
    obtain ⟨⟨mode, hl, hsuits⟩, hrun⟩ := hempty.after hphrase hb
    refine ⟨by rw [parse, build, hs, hrun], hsuits.trans ?_⟩
    cases hl with
    | cons hleads _ => exact (isInner_kind hleads).symm

/-- A text that ends inside its second start tag: that tag is pending in front of its attribute. -/
theorem kinds_tokenize_cut :
    ∃ b, Builder.after? {} [.openTag "svg".toList, .tagEnd, .text ['x'], .openTag ['g']] = some b ∧
      parse "<svg>x<g a".toList = b.run [.attribute ['a'] []] ∧ b.pending.isSome = true := by
  have htokens : (tokenize "<svg>x<g a".toList).map Token.lexeme =
      [.openTag "svg".toList, .tagEnd, .text ['x'], .openTag ['g']] ++ .attribute ['a'] [] :: [] := by
    decide +kernel
  obtain ⟨hrun, hpending⟩ := kinds_tokenize.2 _ _ _ _ _ htokens rfl
  exact ⟨_, rfl, hrun, hpending.2 rfl⟩

end SvgComponent.Markup
