import SvgComponent.Proofs.Outline
import SvgComponent.Proofs.Squeezing

/-!
# Reading does not depend on how lines are broken

The reader takes the same steps over a text and over the same text with its runs of blanks changed
(`lexemes_respacing`): no mark that it looks for holds a blank, and where it skips blanks it skips all
of them. So texts that differ only in the blanks around line breaks are read as trees that are alike
(`parse_respaced`).

* `Step.Follows`: the step over the changed text does what the step over the text does.
* `Step.markup_follows`, `Step.tag_follows`: it does, in content and inside a start tag.
-/

namespace SvgComponent.Markup

open Text

/-! ## Where values and blanks end -/

theorem not_isBlank_of_mem_bareValue {s : List Char} {c : Char} (h : c ∈ bareValue s) :
    isBlank c = false := by
  induction s with
  | nil => cases h
  | cons d s ih =>
    rw [bareValue] at h
    split at h
    · cases h
    · rename_i hd
      simp only [Bool.or_eq_true, not_or, Bool.not_eq_true] at hd
      rcases List.mem_cons.1 h with rfl | h
      · exact hd.1.1.1
      · exact ih h

/-- Dropping the blanks a text starts with, and more behind them. -/
theorem drop_blanks_add {s r : List Char} (h : s.dropWhile isBlank = r) (n : Nat) :
    s.drop ((s.takeWhile isBlank).length + n) = r.drop n := by
  rw [← List.drop_drop, drop_length_takeWhile, h]

/-! ## Steps of the reader -/

/-- The lexeme with its contents changed. -/
def Lexeme.mapContent (f : List Char → List Char) : Lexeme → Lexeme
  | .text s => .text (f s)
  | .comment s => .comment (f s)
  | .cdata s => .cdata (f s)
  | .attribute name value => .attribute name (f value)
  | l => l

/-- `step'`, taken in the changed text, does what `step` does in `s`. -/
def Step.Follows (f : List Char → List Char) (step step' : Step) (s : List Char) : Prop :=
  step'.lexeme = step.lexeme.map (Lexeme.mapContent f) ∧ step'.mode = step.mode ∧
    (f s).drop step'.extra = f (s.drop step.extra)

section

variable {f : List Char → List Char} (hf : Respacing f)
include hf

theorem tagName_respacing (s : List Char) : tagName (f s) = tagName s := by
  cases s with
  | nil => rw [hf.nil]
  | cons c s =>
    by_cases hc : isBlank c = true
    · have hn : ∀ {d : Char}, isBlank d = true → isNameStart d = false := fun hd => by
        cases hs : isNameStart _ with
        | false => rfl
        | true => exact absurd (isNameChar_of_isNameStart hs) (by simp [not_isNameChar_of_isBlank hd])
      obtain ⟨d, t, hdt, hd⟩ := hf.cons_of_blank hc s
      rw [hdt, tagName, tagName, hn hd, hn hc]
      rfl
    · rw [hf.solid (by simpa using hc), tagName, tagName,
        (hf.takeWhile (fun c => not_isNameChar_of_isBlank) s).1]

theorem closeLexeme_respacing (s : List Char) :
    closeLexeme (f s) = (closeLexeme s).map (Lexeme.mapContent f) := by
  rw [closeLexeme, closeLexeme, tagName_respacing hf]
  cases tagName s <;> rfl

/-- A construct with a closing mark. -/
theorem Step.delimited_follows {lexeme unclosed : List Char → Option Lexeme} {n : Nat}
    {opening closing s : List Char} (hs : opening <+: s) (hn : opening.length = n)
    (ho : opening.all (!isBlank ·) = true) (hne : closing ≠ [])
    (hc : closing.all (!isBlank ·) = true)
    (hl : ∀ b, lexeme (f b) = (lexeme b).map (Lexeme.mapContent f))
    (hu : ∀ b, unclosed (f b) = (unclosed b).map (Lexeme.mapContent f)) :
    (Step.delimited lexeme unclosed n closing s).Follows f
      (Step.delimited lexeme unclosed n closing (f s)) s := by
  obtain ⟨t, rfl⟩ := hs
  subst hn
  simp only [List.all_eq_true, Bool.not_eq_true'] at ho hc
  rw [Step.delimited, Step.delimited, hf.of_not_blank ho, List.drop_left, List.drop_left,
    hf.before? hne hc]
  cases hb : before? closing t with
  | none =>
    refine ⟨hu t, rfl, ?_⟩
    rw [hf.of_not_blank ho]
    simp [hf.nil]
  | some body =>
    refine ⟨hl body, rfl, ?_⟩
    have hdrop := hf.drop_of_before? hne hc hb
    simp only [Option.map_some]
    rw [hf.of_not_blank ho, Nat.add_assoc, Nat.add_assoc, List.drop_length_add_append,
      List.drop_length_add_append, hdrop]

theorem drop_declarationWidth_respacing (s : List Char) :
    (f s).drop (declarationWidth (f s)) = f (s.drop (declarationWidth s)) := by
  have hgt : isBlank '>' = false := by decide
  have hopen : isBlank '[' = false := by decide
  have hclose : isBlank ']' = false := by decide
  have hsearch : ∀ {x : Char}, isBlank x = false → ∀ t, before? [x] (f t) =
      (before? [x] t).map f := fun hx t => hf.before? (by simp) (by simpa using hx) t
  rw [declarationWidth, declarationWidth, hsearch hgt]
  cases hhead : before? ['>'] s with
  | none => simp [hf.nil]
  | some head =>
    simp only [Option.map_some, hf.mem hopen]
    split
    · -- the search goes on behind the internal subset
      obtain ⟨hlen, hsub⟩ := hf.dropUntil hopen s
      rw [drop_length_takeWhile, drop_length_takeWhile, hsub, hsearch hclose]
      cases hin : before? [']'] (s.dropWhile (· ≠ '[')) with
      | none => simp [hf.nil]
      | some inside =>
        obtain ⟨hat, -⟩ := hf.drop_of_char hclose hin
        simp only [Option.map_some, ← List.drop_drop, drop_length_takeWhile, hsub, hat]
        rw [hsearch hgt]
        cases htail : before? ['>'] ((s.dropWhile (· ≠ '[')).drop inside.length) with
        | none => simp [hf.nil]
        | some tail =>
          obtain ⟨-, hend⟩ := hf.drop_of_char hgt htail
          simp only [Option.map_some, Nat.add_assoc, ← List.drop_drop, drop_length_takeWhile, hsub,
            hat]
          rw [List.drop_drop, hend]
          simp only [List.drop_drop, Nat.add_assoc]
    · exact (hf.drop_of_char hgt hhead).2

theorem Step.markup_follows (s : List Char) :
    (Step.markup s).Follows f (Step.markup (f s)) s := by
  have hpre : ∀ {pat : List Char}, pat.all (!isBlank ·) = true →
      pat.isPrefixOf (f s) = pat.isPrefixOf s := fun {pat} hp => by
    rw [Bool.eq_iff_iff, List.isPrefixOf_iff_prefix, List.isPrefixOf_iff_prefix,
      hf.isPrefix (by simpa using hp)]
  rw [Step.markup, Step.markup, hpre (by decide), hpre (by decide), hpre (by decide),
    hpre (by decide), hpre (by decide), tagName_respacing hf]
  split
  · rename_i h
    exact Step.delimited_follows hf (List.isPrefixOf_iff_prefix.1 h) rfl (by decide) (by decide)
      (by decide) (fun _ => rfl) fun _ => rfl
  split
  · rename_i h
    exact Step.delimited_follows hf (List.isPrefixOf_iff_prefix.1 h) rfl (by decide) (by decide)
      (by decide) (fun _ => rfl) fun _ => rfl
  split
  · rename_i h
    exact Step.delimited_follows hf (List.isPrefixOf_iff_prefix.1 h) rfl (by decide) (by decide)
      (by decide) (fun _ => rfl) fun _ => rfl
  split
  · exact ⟨rfl, rfl, drop_declarationWidth_respacing hf s⟩
  split
  · rename_i h
    exact Step.delimited_follows hf (List.isPrefixOf_iff_prefix.1 h) rfl (by decide) (by decide)
      (by decide) (closeLexeme_respacing hf) fun _ => rfl
  · cases hn : tagName s with
    | nil =>
      have hself : f ['<'] = ['<'] := by rw [hf.solid (by decide), hf.nil]
      exact ⟨by simp [Lexeme.mapContent, hself], rfl, rfl⟩
    | cons c name =>
      refine ⟨rfl, rfl, ?_⟩
      have hblank : ∀ d ∈ tagName s, isBlank d = false := fun d hd => by
        cases hb : isBlank d with
        | false => rfl
        | true =>
          have hname := isNameChar_of_mem_tag (isTagName_tagName (by simp [hn])) hd
          rw [not_isNameChar_of_isBlank hb] at hname
          cases hname
      obtain ⟨r, hr⟩ := tagName_prefix s
      rw [hn] at hblank hr
      rw [← hr, hf.of_not_blank hblank, List.drop_left, List.drop_left]

/-! ## Values -/

theorem bareValue_respacing (s : List Char) :
    bareValue (f s) = bareValue s ∧
      (f s).drop (bareValue s).length = f (s.drop (bareValue s).length) := by
  induction s with
  | nil => simp [hf.nil, bareValue]
  | cons c s ih =>
    by_cases hc : isBlank c = true
    · obtain ⟨d, t, hdt, hd⟩ := hf.cons_of_blank hc s
      rw [hdt]
      simp [bareValue, hc, hd, ← hdt]
    · rw [hf.solid (by simpa using hc)]
      have hhead : ((f s).head? == some '>') = (s.head? == some '>') := by
        rw [Bool.eq_iff_iff, beq_iff_eq, beq_iff_eq, hf.head? (by decide)]
      simp only [bareValue, hhead]
      split
      · exact ⟨rfl, by simp [hf.solid (show isBlank c = false by simpa using hc)]⟩
      · exact ⟨by rw [ih.1], by simpa using ih.2⟩

theorem valueAfterEquals_respacing (s : List Char) :
    (valueAfterEquals (f s)).1 = f (valueAfterEquals s).1 ∧
      (f s).drop (valueAfterEquals (f s)).2 =
        f (s.drop (valueAfterEquals s).2) := by
  rw [valueAfterEquals, valueAfterEquals]
  have hdrop := hf.dropBlanks s
  cases hr : s.dropWhile isBlank with
  | nil =>
    rw [hr, hf.nil] at hdrop
    rw [hdrop]
    exact ⟨hf.nil.symm, by simp only [drop_length_takeWhile, hdrop, hr, hf.nil]⟩
  | cons q body =>
    have hq : isBlank q = false := by
      have hc := clear_dropWhile isBlank s
      rwa [hr, clear_cons] at hc
    rw [hr, hf.solid hq] at hdrop
    rw [hdrop]
    simp only []
    split
    · rw [hf.before? (by simp) (by simpa using hq)]
      cases hb : before? [q] body with
      | none => exact ⟨rfl, by simp [hf.nil]⟩
      | some value =>
        refine ⟨rfl, ?_⟩
        simp only [Option.map_some, Nat.add_assoc, drop_blanks_add hdrop, drop_blanks_add hr]
        simpa using (hf.drop_of_char hq hb).2
    · obtain ⟨hv, hd⟩ := bareValue_respacing hf (q :: body)
      rw [hf.solid hq] at hv hd
      have hself := hf.of_not_blank (fun c => not_isBlank_of_mem_bareValue) []
        (w := bareValue (q :: body))
      simp only [hv, drop_blanks_add hdrop, drop_blanks_add hr, hd, and_true]
      simpa [hf.nil] using hself.symm

theorem attributeValue_respacing (s : List Char) :
    (attributeValue (f s)).1 = f (attributeValue s).1 ∧
      (f s).drop (attributeValue (f s)).2 = f (s.drop (attributeValue s).2) := by
  have hdrop := hf.dropBlanks s
  by_cases he : ∃ rest, s.dropWhile isBlank = '=' :: rest
  · obtain ⟨rest, hr⟩ := he
    obtain ⟨hv, hd⟩ := valueAfterEquals_respacing hf rest
    rw [hr, hf.solid (by decide)] at hdrop
    rw [attributeValue, attributeValue, hdrop, hr]
    refine ⟨hv, ?_⟩
    simp only [Nat.add_assoc, drop_blanks_add hdrop, drop_blanks_add hr, Nat.add_comm 1]
    simpa using hd
  · have he' : ¬ ∃ rest, (f s).dropWhile isBlank = '=' :: rest := by
      rintro ⟨rest, hr⟩
      rw [hdrop] at hr
      obtain ⟨r, hr, -⟩ := hf.exists_of_eq_cons (by decide) hr
      exact he ⟨r, hr⟩
    have hnone : ∀ t : List Char, (¬ ∃ rest, t.dropWhile isBlank = '=' :: rest) →
        attributeValue t = ([], (t.takeWhile isBlank).length) := by
      intro t ht
      rw [attributeValue]
      split
      · rename_i rest hr
        exact absurd ⟨rest, hr⟩ ht
      · rfl
    rw [hnone _ he, hnone _ he']
    exact ⟨hf.nil.symm, by simp only [drop_length_takeWhile, hdrop]⟩

/-! ## The whole reader -/

/-- A step inside a start tag at a character that is not blank. -/
theorem Step.tag_follows {c : Char} (hc : isBlank c = false) (s : List Char) :
    (Step.tag c s).Follows f (Step.tag c (f s)) s := by
  by_cases ha : isAttributeChar c = true
  · have hblank : ∀ d, isBlank d = true → isAttributeChar d = false := fun d hd => by
      simp [isAttributeChar, hd]
    obtain ⟨htake, hdrop⟩ := hf.takeWhile hblank s
    obtain ⟨hv, hd⟩ := attributeValue_respacing hf (s.dropWhile isAttributeChar)
    rw [Step.tag_attribute ha, Step.tag_attribute ha, htake, hdrop]
    refine ⟨?_, rfl, ?_⟩
    · simp [Lexeme.mapContent, hv]
    · rw [← List.drop_drop, ← List.drop_drop, drop_length_takeWhile, ← htake,
        drop_length_takeWhile, hdrop, hd]
  · have hhead := hf.head? (show isBlank '>' = false by decide) s
    simp only [Step.tag, hc, hhead, ha, Bool.false_eq_true, if_false]
    split
    · rename_i h
      obtain ⟨r, rfl⟩ := List.head?_eq_some_iff.1 h.2
      exact ⟨rfl, rfl, by rw [hf.solid (by decide)]; rfl⟩
    split
    · exact ⟨rfl, rfl, rfl⟩
    · exact ⟨rfl, rfl, rfl⟩

/-- **The reader takes the same steps over a text with other blanks.** -/
theorem lexemes_respacing (mode : Mode) (s : List Char) :
    lexemes mode (f s) = (lexemes mode s).map (Lexeme.mapContent f) := by
  induction hn : s.length using Nat.strongRecOn generalizing mode s with
  | ind n ih =>
    cases s with
    | nil => simp [hf.nil]
    | cons c s =>
      -- a step at a character that is not blank
      have hstep : ∀ {step step' : Step}, isBlank c = false → Step.at mode c s = step →
          Step.at mode c (f s) = step' → step.Follows f step' s →
          lexemes mode (f (c :: s)) = (lexemes mode (c :: s)).map (Lexeme.mapContent f) := by
        rintro step step' hc rfl rfl ⟨hl, hm, hd⟩
        rw [hf.solid hc, lexemes_cons, lexemes_cons, hl, hm, hd,
          ih _ (by rw [← hn, List.length_drop, List.length_cons]; omega) _ _ rfl]
        cases (Step.at mode c s).lexeme <;> simp
      cases mode with
      | tag =>
        by_cases hc : isBlank c = true
        · rw [← lexemes_dropBlanks, hf.dropBlanks, ← lexemes_dropBlanks (c :: s)]
          refine ih _ ?_ _ _ rfl
          rw [List.dropWhile_cons_of_pos hc, ← hn]
          exact Nat.lt_succ_of_le (List.dropWhile_sublist _).length_le
        · rw [Bool.not_eq_true] at hc
          exact hstep hc rfl rfl (Step.tag_follows hf hc s)
      | content =>
        by_cases hlt : c = '<'
        · subst hlt
          exact hstep (by decide) rfl rfl (by simpa [Step.at, Step.content] using Step.markup_follows hf s)
        · obtain ⟨htake, hdrop⟩ := hf.dropUntil (show isBlank '<' = false by decide) (c :: s)
          rw [lexemes_textRun (f (c :: s)), lexemes_textRun (c :: s), htake, hdrop,
            List.map_append, ih _ ?_ _ _ rfl]
          · simp only [hf.eq_nil]
            split <;> rfl
          · rw [List.dropWhile_cons_of_pos (by simpa using hlt), ← hn]
            exact Nat.lt_succ_of_le (List.dropWhile_sublist _).length_le

end

theorem additive_respaced : Additive Respaced := ⟨rfl, squeeze_congr⟩

theorem lexeme_alike_of_squeeze {l l' : Lexeme} (h : l.mapContent squeeze = l'.mapContent squeeze) :
    l.Alike Respaced Respaced l' := by
  cases l <;> cases l' <;> simp only [Lexeme.mapContent, reduceCtorEq, Lexeme.text.injEq,
    Lexeme.comment.injEq, Lexeme.cdata.injEq, Lexeme.openTag.injEq, Lexeme.attribute.injEq,
    Lexeme.closeTag.injEq] at h
  · exact .text h
  · exact .comment
  · exact .cdata h
  · exact h ▸ .openTag
  · exact h.1 ▸ .attribute h.2
  · exact .tagEnd
  · exact .selfClose
  · exact h ▸ .closeTag

/-- **Texts that differ only in the blanks around line breaks are read alike.** -/
theorem parse_respaced {s t : List Char} (h : Respaced s t) :
    AlikeResults Respaced Respaced (parse s) (parse t) := by
  have hls : (lexemes .content s).map (Lexeme.mapContent squeeze) =
      (lexemes .content t).map (Lexeme.mapContent squeeze) := by
    rw [← lexemes_respacing respacing_squeeze, h, lexemes_respacing respacing_squeeze]
  rw [← List.forall₂_eq_eq_eq, List.forall₂_map_left_iff, List.forall₂_map_right_iff] at hls
  have hb : Builder.Alike Respaced Respaced {} {} := ⟨.nil, .none⟩
  exact hb.run additive_respaced (hls.imp fun _ _ => lexeme_alike_of_squeeze)

end SvgComponent.Markup
