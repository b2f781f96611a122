import SvgComponent.Proofs.Squeezing
import SvgComponent.Source.Minify

/-!
# The passes over code

What the six passes of `minifyCode` do together, one character at a time. A character that no pass looks
at stays; behind punctuation all blanks go, and behind `>` they may; a semicolon goes only in front of a
closing brace; a run of blanks becomes one space, or goes in front of `<` or punctuation.

* `stripStart_minifyCode`: it does not matter when the blanks that code starts with are dropped.
* `minifyCode_keep`, `minifyCode_semicolon`, `minifyCode_blank`: what becomes of the first character.
* `minifyCode_append_quote`: code can be cut at a quotation mark.
-/

namespace SvgComponent.Source

open Text

/-! ## Blanks at the start -/

theorem stripStart_comm {p : List Char → List Char} (hnil : p [] = [])
    (hblank : ∀ b s, isBlank b = true →
      (p (b :: s)).dropWhile isBlank = (p s).dropWhile isBlank)
    (hclear : ∀ c s, isBlank c = false → Clear isBlank (p (c :: s))) (s : List Char) :
    (p s).dropWhile isBlank = p (s.dropWhile isBlank) := by
  induction s with
  | nil => rw [List.dropWhile_nil, hnil, List.dropWhile_nil]
  | cons c s ih =>
    by_cases hc : isBlank c = true
    · rw [hblank c s hc, ih, List.dropWhile_cons_of_pos hc]
    · rw [List.dropWhile_cons_of_neg hc, (hclear c s (by simpa using hc)).dropWhile]

theorem isBlank_of_isInline {c : Char} (h : isInline c = true) : isBlank c = true := by
  simp only [isInline, Bool.or_eq_true, beq_iff_eq] at h
  rcases h with rfl | rfl <;> decide

theorem isInline_of_not_blank {c : Char} (h : isBlank c = false) : isInline c = false :=
  Bool.eq_false_iff.2 fun hi => by
    rw [isBlank_of_isInline hi] at h
    cases h

theorem dropBlanks_dropInline (s : List Char) :
    (s.dropWhile isInline).dropWhile isBlank = s.dropWhile isBlank := by
  induction s with
  | nil => rfl
  | cons c s ih =>
    by_cases hc : isInline c = true
    · rw [List.dropWhile_cons_of_pos hc, ih, List.dropWhile_cons_of_pos (isBlank_of_isInline hc)]
    · rw [List.dropWhile_cons_of_neg hc]

/-! ## The pass behind tags -/

theorem joinAfterTag_cons (c : Char) (s : List Char) :
    joinAfterTag (c :: s) =
      if c = '>' ∧ startsWithBreak (joinAfterTag s) then c :: (joinAfterTag s).dropWhile isBlank
      else c :: joinAfterTag s := rfl

theorem joinAfterTag_of_ne {c : Char} (hc : c ≠ '>') (s : List Char) :
    joinAfterTag (c :: s) = c :: joinAfterTag s := by
  rw [joinAfterTag_cons, if_neg fun h => hc h.1]

theorem clear_joinAfterTag {c : Char} (hc : isBlank c = false) (s : List Char) :
    Clear isBlank (joinAfterTag (c :: s)) := by
  rw [joinAfterTag_cons]
  split <;> simpa using hc

theorem ne_of_isBlank {b c : Char} (hb : isBlank b = true) (hc : isBlank c = false) : b ≠ c := by
  rintro rfl
  rw [hb] at hc
  cases hc

theorem stripStart_joinAfterTag (s : List Char) :
    (joinAfterTag s).dropWhile isBlank = joinAfterTag (s.dropWhile isBlank) := by
  refine stripStart_comm rfl (fun b s hb => ?_) (fun c s hc => clear_joinAfterTag hc s) s
  rw [joinAfterTag_of_ne (ne_of_isBlank hb (by decide)), List.dropWhile_cons_of_pos hb]

theorem head?_joinAfterTag (s : List Char) : (joinAfterTag s).head? = s.head? := by
  cases s with
  | nil => rfl
  | cons c s =>
    rw [joinAfterTag_cons]
    split <;> rfl

theorem startsWithBreak_cons (c : Char) (s : List Char) :
    startsWithBreak (c :: s) =
      if isInline c then startsWithBreak s else c == '\n' || c == '\r' && s.head? == some '\n' := by
  rw [startsWithBreak]
  by_cases hc : isInline c = true
  · rw [List.dropWhile_cons_of_pos hc, if_pos hc, startsWithBreak]
  · rw [List.dropWhile_cons_of_neg hc, if_neg hc]
    cases s <;> split <;> simp_all

/-- The pass does not look at what it has dropped itself. -/
theorem startsWithBreak_joinAfterTag (s : List Char) :
    startsWithBreak (joinAfterTag s) = startsWithBreak s := by
  induction s with
  | nil => rfl
  | cons c s ih =>
    by_cases hc : c = '>'
    · subst hc
      rw [joinAfterTag_cons]
      split <;> rw [startsWithBreak_cons, startsWithBreak_cons] <;> rfl
    · rw [joinAfterTag_of_ne hc, startsWithBreak_cons, startsWithBreak_cons, ih, head?_joinAfterTag]

/-! ## The pass before tags -/

/-- The code that the pass has gone through, with the state it is in. -/
def beforeTagState (s : List Char) : Bool × List Char := s.foldr joinBeforeTag.push (false, [])

theorem joinBeforeTag_eq (s : List Char) : joinBeforeTag s = (beforeTagState s).2 := rfl

theorem beforeTagState_of_not_blank {c : Char} (hc : isBlank c = false) (s : List Char) :
    beforeTagState (c :: s) = (false, c :: joinBeforeTag s) := by
  have hne : c ≠ '\n' := fun e => by
    rw [e] at hc
    cases hc
  rw [joinBeforeTag_eq]
  simp only [beforeTagState, List.foldr_cons, joinBeforeTag.push, hc, Bool.false_and,
    Bool.false_eq_true, if_false, hne, false_and]

theorem joinBeforeTag_of_not_blank {c : Char} (hc : isBlank c = false) (s : List Char) :
    joinBeforeTag (c :: s) = c :: joinBeforeTag s := by
  rw [joinBeforeTag_eq, beforeTagState_of_not_blank hc]

theorem beforeTagState_of_blank {b : Char} (hb : isBlank b = true) (s : List Char) :
    beforeTagState (b :: s) =
      if (beforeTagState s).1 = true then (true, joinBeforeTag s)
      else if b = '\n' ∧ ((joinBeforeTag s).dropWhile isInline).head? = some '<' then
        (true, (joinBeforeTag s).dropWhile isInline)
      else (false, b :: joinBeforeTag s) := by
  simp only [joinBeforeTag_eq]
  simp only [beforeTagState, List.foldr_cons, joinBeforeTag.push, hb, Bool.true_and]
  congr

/-- The state says that the code starts with a tag. -/
theorem head?_of_joined (s : List Char) (h : (beforeTagState s).1 = true) :
    (joinBeforeTag s).head? = some '<' := by
  induction s with
  | nil => cases h
  | cons c s ih =>
    cases hc : isBlank c with
    | false =>
      rw [beforeTagState_of_not_blank hc] at h
      cases h
    | true =>
      rw [joinBeforeTag_eq]
      rw [beforeTagState_of_blank hc] at h ⊢
      split at h
      · rename_i hj
        rw [if_pos hj]
        exact ih hj
      · rename_i hj
        rw [if_neg hj]
        split at h
        · rename_i hn
          rw [if_pos hn]
          exact hn.2
        · cases h

theorem dropWhile_of_head? {p : Char → Bool} {s : List Char} {c : Char} (h : s.head? = some c)
    (hc : p c = false) : s.dropWhile p = s := by
  have hclear : Clear p s := fun d hd => by
    rw [h] at hd
    cases hd
    exact hc
  exact hclear.dropWhile

/-- A blank is kept, or it goes with all the blanks behind it and a tag follows. -/
theorem joinBeforeTag_of_blank {b : Char} (hb : isBlank b = true) (s : List Char) :
    joinBeforeTag (b :: s) = b :: joinBeforeTag s ∨
      ((joinBeforeTag s).dropWhile isBlank).head? = some '<' ∧
        joinBeforeTag (b :: s) = (joinBeforeTag s).dropWhile isBlank := by
  rw [joinBeforeTag_eq (b :: s), beforeTagState_of_blank hb]
  split
  · rename_i hj
    have hd := dropWhile_of_head? (p := isBlank) (head?_of_joined s hj) (by decide)
    rw [hd]
    exact .inr ⟨head?_of_joined s hj, rfl⟩
  · split
    · rename_i hn
      have hd := dropWhile_of_head? (p := isBlank) hn.2 (by decide)
      rw [dropBlanks_dropInline] at hd
      rw [hd]
      exact .inr ⟨hn.2, rfl⟩
    · exact .inl rfl

theorem stripStart_joinBeforeTag (s : List Char) :
    (joinBeforeTag s).dropWhile isBlank = joinBeforeTag (s.dropWhile isBlank) := by
  refine stripStart_comm rfl (fun b s hb => ?_) (fun c s hc => ?_) s
  · rcases joinBeforeTag_of_blank hb s with h | ⟨h, h'⟩
    · rw [h, List.dropWhile_cons_of_pos hb]
    · rw [h', (clear_dropWhile isBlank _).dropWhile]
  · rw [joinBeforeTag_of_not_blank hc]
    simpa using hc

/-! ## The pass between tags -/

theorem joinTags_cons (c : Char) (s : List Char) :
    joinTags (c :: s) =
      if c = '>' ∧ ((joinTags s).dropWhile isBlank).head? = some '<' then
        c :: (joinTags s).dropWhile isBlank
      else c :: joinTags s := rfl

theorem joinTags_of_ne {c : Char} (hc : c ≠ '>') (s : List Char) :
    joinTags (c :: s) = c :: joinTags s := by
  rw [joinTags_cons, if_neg fun h => hc h.1]

theorem stripStart_joinTags (s : List Char) :
    (joinTags s).dropWhile isBlank = joinTags (s.dropWhile isBlank) := by
  refine stripStart_comm rfl (fun b s hb => ?_) (fun c s hc => ?_) s
  · rw [joinTags_of_ne (ne_of_isBlank hb (by decide)), List.dropWhile_cons_of_pos hb]
  · rw [joinTags_cons]
    split <;> simpa using hc

/-! ## Collapsed blanks -/

theorem stripStart_collapse (s : List Char) :
    (collapse s).dropWhile isBlank = collapse (s.dropWhile isBlank) := by
  refine stripStart_comm rfl (fun b s hb => ?_) (fun c s hc => ?_) s
  · rw [collapse_cons_of_blank hb, List.dropWhile_cons_of_pos (by decide)]
    cases s with
    | nil => rfl
    | cons c s =>
      cases hc : isBlank c with
      | false => rw [List.dropWhile_cons_of_neg (by simp [hc])]
      | true =>
        rw [collapse_cons_of_blank hc, List.dropWhile_cons_of_pos hc,
          List.dropWhile_cons_of_pos (by decide)]
  · rw [collapse_cons_of_not_blank hc]
    simpa using hc

/-! ## The pass over semicolons -/

/-- The code that the pass has gone through, with the state it is in. -/
def semicolonState (s : List Char) : Bool × List Char := s.foldr dropSemicolons.push (false, [])

theorem dropSemicolons_eq (s : List Char) : dropSemicolons s = (semicolonState s).2 := rfl

theorem semicolonState_of_blank {b : Char} (hb : isBlank b = true) (s : List Char) :
    semicolonState (b :: s) = ((semicolonState s).1, b :: dropSemicolons s) := by
  rw [dropSemicolons_eq]
  simp only [semicolonState, List.foldr_cons, dropSemicolons.push, hb, if_true]

theorem semicolonState_of_ne {c : Char} (hb : isBlank c = false) (hc : c ≠ ';') (s : List Char) :
    semicolonState (c :: s) = (false, c :: dropSemicolons s) := by
  rw [dropSemicolons_eq]
  simp only [semicolonState, List.foldr_cons, dropSemicolons.push, hb, hc, false_and, if_false,
    Bool.false_eq_true]

theorem semicolonState_semicolon (s : List Char) :
    semicolonState (';' :: s) =
      if (semicolonState s).1 = false ∧ ((dropSemicolons s).dropWhile isBlank).head? = some '\x7d'
      then (true, (dropSemicolons s).dropWhile isBlank)
      else (false, ';' :: dropSemicolons s) := by
  have hb : isBlank ';' = false := by decide
  rw [dropSemicolons_eq]
  simp only [semicolonState, List.foldr_cons, dropSemicolons.push, hb, true_and, if_false,
    Bool.false_eq_true, Bool.not_eq_true']
  congr

theorem dropSemicolons_of_ne {c : Char} (hc : c ≠ ';') (s : List Char) :
    dropSemicolons (c :: s) = c :: dropSemicolons s := by
  rw [dropSemicolons_eq]
  cases hb : isBlank c with
  | false => rw [semicolonState_of_ne hb hc]
  | true => rw [semicolonState_of_blank hb]

/-- As long as the state is unset, the first character that is no blank has not changed. -/
theorem head?_of_unused (s : List Char) (h : (semicolonState s).1 = false) :
    ((dropSemicolons s).dropWhile isBlank).head? = (s.dropWhile isBlank).head? := by
  induction s with
  | nil => rfl
  | cons c s ih =>
    cases hb : isBlank c with
    | true =>
      rw [semicolonState_of_blank hb] at h
      rw [dropSemicolons_of_ne (ne_of_isBlank hb (by decide)), List.dropWhile_cons_of_pos hb,
        List.dropWhile_cons_of_pos hb]
      exact ih h
    | false =>
      by_cases hc : c = ';'
      · subst hc
        rw [semicolonState_semicolon] at h
        split at h
        · cases h
        · rename_i hn
          rw [dropSemicolons_eq, semicolonState_semicolon, if_neg hn,
            List.dropWhile_cons_of_neg (by decide), List.dropWhile_cons_of_neg (by decide)]
          rfl
      · rw [dropSemicolons_of_ne hc, List.dropWhile_cons_of_neg (by simp [hb]),
          List.dropWhile_cons_of_neg (by simp [hb])]
        rfl

/-- A semicolon is kept, or it goes with the blanks behind it and a closing brace follows. -/
theorem dropSemicolons_semicolon (s : List Char) :
    dropSemicolons (';' :: s) = ';' :: dropSemicolons s ∨
      (s.dropWhile isBlank).head? = some '\x7d' ∧
        dropSemicolons (';' :: s) = (dropSemicolons s).dropWhile isBlank := by
  rw [dropSemicolons_eq (';' :: s), semicolonState_semicolon]
  split
  · rename_i h
    rw [head?_of_unused s h.1] at h
    exact .inr ⟨h.2, rfl⟩
  · exact .inl rfl

theorem stripStart_dropSemicolons (s : List Char) :
    (dropSemicolons s).dropWhile isBlank = dropSemicolons (s.dropWhile isBlank) := by
  refine stripStart_comm rfl (fun b s hb => ?_) (fun c s hc => ?_) s
  · rw [dropSemicolons_of_ne (ne_of_isBlank hb (by decide)), List.dropWhile_cons_of_pos hb]
  · by_cases h : c = ';'
    · subst h
      rcases dropSemicolons_semicolon s with h | ⟨-, h⟩
      · rw [h]
        simpa using hc
      · rw [h]
        exact clear_dropWhile isBlank _
    · rw [dropSemicolons_of_ne h]
      simpa using hc

/-! ## The pass around punctuation -/

theorem tightenPunctuation_cons (c : Char) (s : List Char) :
    tightenPunctuation (c :: s) =
      if isPunctuation c then c :: (tightenPunctuation s).dropWhile isBlank
      else if isBlank c && (tightenPunctuation s).head?.any isPunctuation then tightenPunctuation s
      else c :: tightenPunctuation s := rfl

theorem isPunctuation_of_isBlank {c : Char} (h : isBlank c = true) : isPunctuation c = false := by
  refine Bool.eq_false_iff.2 fun hp => ?_
  simp only [isPunctuation, Bool.or_eq_true, beq_iff_eq] at hp
  rcases hp with (((rfl | rfl) | rfl) | rfl) | rfl <;> revert h <;> decide

theorem tightenPunctuation_of_plain {c : Char} (hb : isBlank c = false)
    (hc : isPunctuation c = false) (s : List Char) :
    tightenPunctuation (c :: s) = c :: tightenPunctuation s := by
  rw [tightenPunctuation_cons, if_neg (by simp [hc]), if_neg (by simp [hb])]

theorem tightenPunctuation_of_blank {b : Char} (hb : isBlank b = true) (s : List Char) :
    tightenPunctuation (b :: s) =
      if (tightenPunctuation s).head?.any isPunctuation then tightenPunctuation s
      else b :: tightenPunctuation s := by
  rw [tightenPunctuation_cons, if_neg (by simp [isPunctuation_of_isBlank hb]), hb, Bool.true_and]

theorem stripStart_tightenPunctuation (s : List Char) :
    (tightenPunctuation s).dropWhile isBlank = tightenPunctuation (s.dropWhile isBlank) := by
  refine stripStart_comm rfl (fun b s hb => ?_) (fun c s hc => ?_) s
  · rw [tightenPunctuation_of_blank hb]
    split
    · rfl
    · rw [List.dropWhile_cons_of_pos hb]
  · rw [tightenPunctuation_cons, hc, Bool.false_and]
    split <;> simpa using hc

/-! ## All passes -/

/-- Code behind the passes that only look at tags and blanks. -/
def joined (code : List Char) : List Char :=
  joinTags (collapse (joinBeforeTag (joinAfterTag code)))

theorem minifyCode_eq (s : List Char) :
    minifyCode s = tightenPunctuation (dropSemicolons (joined s)) := rfl

@[simp] theorem minifyCode_nil : minifyCode [] = [] := rfl

theorem stripStart_joined (s : List Char) :
    (joined s).dropWhile isBlank = joined (s.dropWhile isBlank) := by
  rw [joined, stripStart_joinTags, stripStart_collapse, stripStart_joinBeforeTag,
    stripStart_joinAfterTag, joined]

/-- **It does not matter when the blanks that code starts with are dropped.** -/
theorem stripStart_minifyCode (s : List Char) :
    (minifyCode s).dropWhile isBlank = minifyCode (s.dropWhile isBlank) := by
  rw [minifyCode_eq, stripStart_tightenPunctuation, stripStart_dropSemicolons, stripStart_joined,
    minifyCode_eq]

theorem joined_of_ne {c : Char} (hb : isBlank c = false) (hc : c ≠ '>') (s : List Char) :
    joined (c :: s) = c :: joined s := by
  rw [joined, joinAfterTag_of_ne hc, joinBeforeTag_of_not_blank hb, collapse_cons_of_not_blank hb,
    joinTags_of_ne hc, joined]

/-- The first character of code that starts with no blank stays. -/
theorem head?_joined {c : Char} (hb : isBlank c = false) (s : List Char) :
    (joined (c :: s)).head? = some c := by
  by_cases hc : c = '>'
  · subst hc
    obtain ⟨t, ht⟩ : ∃ t, joinAfterTag ('>' :: s) = '>' :: t :=
      List.head?_eq_some_iff.1 (head?_joinAfterTag _)
    rw [joined, ht, joinBeforeTag_of_not_blank hb, collapse_cons_of_not_blank hb, joinTags_cons]
    split <;> rfl
  · rw [joined_of_ne hb hc]
    rfl

theorem head?_stripStart_joined (s : List Char) :
    ((joined s).dropWhile isBlank).head? = (s.dropWhile isBlank).head? := by
  rw [stripStart_joined]
  cases h : s.dropWhile isBlank with
  | nil => rfl
  | cons c t =>
    have hc := clear_dropWhile isBlank s
    rw [h, clear_cons] at hc
    rw [head?_joined hc]
    rfl

/-- **The blanks behind a tag go** if a line break is the first of them that is not inline, or if another
tag follows. -/
theorem joined_tag (s : List Char) :
    joined ('>' :: s) =
      if startsWithBreak s = true ∨ (s.dropWhile isBlank).head? = some '<' then
        '>' :: joined (s.dropWhile isBlank)
      else '>' :: joined s := by
  have hb : isBlank '>' = false := by decide
  have hlast : ∀ t, joinTags (collapse (joinBeforeTag ('>' :: joinAfterTag t))) =
      if (t.dropWhile isBlank).head? = some '<' then '>' :: joined (t.dropWhile isBlank)
      else '>' :: joined t := by
    intro t
    rw [joinBeforeTag_of_not_blank hb, collapse_cons_of_not_blank hb, joinTags_cons, ← joined,
      head?_stripStart_joined, stripStart_joined]
    simp only [true_and]
  rw [joined, joinAfterTag_cons, startsWithBreak_joinAfterTag, stripStart_joinAfterTag]
  by_cases hbreak : startsWithBreak s = true
  · rw [if_pos ⟨rfl, hbreak⟩, if_pos (.inl hbreak), hlast,
      (clear_dropWhile isBlank s).dropWhile, ite_self]
  · rw [if_neg (by simp [hbreak]), hlast]
    simp [hbreak]

theorem joined_blank {b : Char} (hb : isBlank b = true) (s : List Char) :
    joined (b :: s) = ' ' :: joined (s.dropWhile isBlank) ∨
      (s.dropWhile isBlank).head? = some '<' ∧ joined (b :: s) = joined (s.dropWhile isBlank) := by
  have hne : b ≠ '>' := ne_of_isBlank hb (by decide)
  rw [joined, joinAfterTag_of_ne hne]
  rcases joinBeforeTag_of_blank hb (joinAfterTag s) with h | ⟨h, h'⟩
  · left
    rw [h, collapse_cons_of_blank hb, joinTags_of_ne (by decide), stripStart_joinBeforeTag,
      stripStart_joinAfterTag, joined]
  · right
    rw [h', stripStart_joinBeforeTag, stripStart_joinAfterTag]
    refine ⟨?_, rfl⟩
    rw [stripStart_joinBeforeTag, stripStart_joinAfterTag] at h
    cases hd : s.dropWhile isBlank with
    | nil => rw [hd] at h; cases h
    | cons c t =>
      have hc := clear_dropWhile isBlank s
      rw [hd, clear_cons] at hc
      rw [hd] at h
      by_cases hgt : c = '>'
      · subst hgt
        rw [joinAfterTag_cons] at h
        split at h <;> rw [joinBeforeTag_of_not_blank hc] at h <;> cases h
      · rwa [joinAfterTag_of_ne hgt, joinBeforeTag_of_not_blank hc] at h

/-! ## The first character -/

/-- Characters behind which blanks may be dropped. -/
def isLoose (c : Char) : Bool := c == '>' || isPunctuation c

/-- Characters in front of which blanks may be dropped. -/
def isTight (c : Char) : Bool := c == '<' || isPunctuation c

theorem minifyCode_plain {c : Char} (hb : isBlank c = false) (hp : isPunctuation c = false)
    (hc : c ≠ '>') (s : List Char) : minifyCode (c :: s) = c :: minifyCode s := by
  have hsemicolon : c ≠ ';' := by
    rintro rfl
    cases hp
  rw [minifyCode_eq, joined_of_ne hb hc, dropSemicolons_of_ne hsemicolon,
    tightenPunctuation_of_plain hb hp, minifyCode_eq]

theorem minifyCode_tag (s : List Char) :
    minifyCode ('>' :: s) =
      if startsWithBreak s = true ∨ (s.dropWhile isBlank).head? = some '<' then
        '>' :: minifyCode (s.dropWhile isBlank)
      else '>' :: minifyCode s := by
  rw [minifyCode_eq, joined_tag]
  split <;>
    rw [dropSemicolons_of_ne (by decide), tightenPunctuation_of_plain (by decide) (by decide),
      minifyCode_eq]

theorem minifyCode_punctuation {c : Char} (hp : isPunctuation c = true) (hc : c ≠ ';')
    (s : List Char) : minifyCode (c :: s) = c :: minifyCode (s.dropWhile isBlank) := by
  have hb : isBlank c = false := by
    refine Bool.eq_false_iff.2 fun hb => ?_
    rw [isPunctuation_of_isBlank hb] at hp
    cases hp
  have hgt : c ≠ '>' := by
    rintro rfl
    cases hp
  rw [minifyCode_eq, joined_of_ne hb hgt, dropSemicolons_of_ne hc, tightenPunctuation_cons,
    if_pos hp, stripStart_tightenPunctuation, stripStart_dropSemicolons, stripStart_joined,
    minifyCode_eq]

/-- **A character that is neither a blank nor a semicolon is kept**, and the blanks behind it go at
most. -/
theorem minifyCode_keep {c : Char} (hb : isBlank c = false) (hc : c ≠ ';') (s : List Char) :
    minifyCode (c :: s) = c :: minifyCode s ∨
      isLoose c = true ∧ minifyCode (c :: s) = c :: minifyCode (s.dropWhile isBlank) := by
  cases hp : isPunctuation c with
  | true => exact .inr ⟨by simp [isLoose, hp], minifyCode_punctuation hp hc s⟩
  | false =>
    by_cases hgt : c = '>'
    · subst hgt
      rw [minifyCode_tag]
      split
      · exact .inr ⟨by decide, rfl⟩
      · exact .inl rfl
    · exact .inl (minifyCode_plain hb hp hgt s)

/-- **A semicolon goes only in front of a closing brace.** The blanks behind it go in any case. -/
theorem minifyCode_semicolon (s : List Char) :
    minifyCode (';' :: s) = ';' :: minifyCode (s.dropWhile isBlank) ∨
      (s.dropWhile isBlank).head? = some '\x7d' ∧
        minifyCode (';' :: s) = minifyCode (s.dropWhile isBlank) := by
  rw [minifyCode_eq, minifyCode_eq, joined_of_ne (by decide) (by decide)]
  rcases dropSemicolons_semicolon (joined s) with h | ⟨h, h'⟩
  · left
    rw [h, tightenPunctuation_cons, if_pos (by decide), stripStart_tightenPunctuation,
      stripStart_dropSemicolons, stripStart_joined]
  · right
    rw [h', stripStart_dropSemicolons, stripStart_joined]
    rw [head?_stripStart_joined] at h
    exact ⟨h, rfl⟩

theorem head?_minifyCode {c d : Char} (hb : isBlank c = false) {s : List Char}
    (h : (minifyCode (c :: s)).head? = some d) (hd : isPunctuation d = true) :
    isPunctuation c = true := by
  by_cases hc : c = ';'
  · rw [hc]
    rfl
  · have hcd : c = d := by
      rcases minifyCode_keep hb hc s with e | ⟨-, e⟩ <;> rw [e] at h <;> simpa using h
    rwa [hcd]

/-- **A run of blanks becomes one space**, or goes in front of a tag or punctuation. -/
theorem minifyCode_blank {b : Char} (hb : isBlank b = true) (s : List Char) :
    minifyCode (b :: s) = ' ' :: minifyCode (s.dropWhile isBlank) ∨
      (s.dropWhile isBlank).head?.any isTight = true ∧
        minifyCode (b :: s) = minifyCode (s.dropWhile isBlank) := by
  have hspace : isBlank ' ' = true := by decide
  rw [minifyCode_eq (b :: s)]
  rcases joined_blank hb s with h | ⟨h, h'⟩
  · rw [h, dropSemicolons_of_ne (by decide), tightenPunctuation_of_blank hspace, ← minifyCode_eq]
    split
    · rename_i hp
      refine .inr ⟨?_, rfl⟩
      cases hd : s.dropWhile isBlank with
      | nil => rw [hd] at hp; cases hp
      | cons c t =>
        have hc := clear_dropWhile isBlank s
        rw [hd, clear_cons] at hc
        rw [hd] at hp
        cases hm : (minifyCode (c :: t)).head? with
        | none => rw [hm] at hp; cases hp
        | some d =>
          rw [hm] at hp
          simp [isTight, head?_minifyCode hc hm hp]
    · exact .inl rfl
  · right
    rw [h', ← minifyCode_eq, h]
    exact ⟨rfl, rfl⟩

/-- Minifying code adds no characters but spaces, and leaves no other blanks. -/
theorem mem_minifyCode {c : Char} {s : List Char} (h : c ∈ minifyCode s) :
    c = ' ' ∨ isBlank c = false ∧ c ∈ s := by
  -- on the length, as a step can go past a whole run of blanks
  induction hn : s.length using Nat.strongRecOn generalizing s with
  | ind n ih =>
    cases s with
    | nil => cases h
    | cons d s =>
      have hdrop : c ∈ minifyCode (s.dropWhile isBlank) →
          c = ' ' ∨ isBlank c = false ∧ c ∈ d :: s := fun hm => by
        refine (ih _ ?_ hm rfl).imp id fun hm => ⟨hm.1, ?_⟩
        · exact hn ▸ Nat.lt_succ_of_le (List.dropWhile_sublist _).length_le
        · exact List.mem_cons_of_mem _ ((List.dropWhile_sublist _).subset hm.2)
      cases hb : isBlank d with
      | true =>
        rcases minifyCode_blank hb s with e | ⟨-, e⟩ <;> rw [e] at h
        · exact (List.mem_cons.1 h).elim .inl hdrop
        · exact hdrop h
      | false =>
        have hfirst : c = d → c = ' ' ∨ isBlank c = false ∧ c ∈ d :: s := by
          rintro rfl
          exact .inr ⟨hb, List.mem_cons_self⟩
        by_cases hd : d = ';'
        · subst hd
          rcases minifyCode_semicolon s with e | ⟨-, e⟩ <;> rw [e] at h
          · exact (List.mem_cons.1 h).elim hfirst hdrop
          · exact hdrop h
        · rcases minifyCode_keep hb hd s with e | ⟨-, e⟩ <;> rw [e] at h
          · refine (List.mem_cons.1 h).elim hfirst fun hm => ?_
            exact (ih _ (hn ▸ Nat.lt_succ_self _) hm rfl).imp id
              fun hm => ⟨hm.1, List.mem_cons_of_mem _ hm.2⟩
          · exact (List.mem_cons.1 h).elim hfirst hdrop

/-! ## Quotation marks

No pass looks beyond a quotation mark, so code can be cut there. -/

section
variable {q : Char} (hq : isStringQuote q = true)
include hq

theorem isStringQuote_facts : isBlank q = false ∧ isInline q = false ∧ isPunctuation q = false ∧
    q ≠ '<' ∧ q ≠ '>' ∧ q ≠ '\n' ∧ q ≠ '\r' ∧ q ≠ ';' ∧ q ≠ '\x7d' := by
  simp only [isStringQuote, Bool.or_eq_true, beq_iff_eq] at hq
  rcases hq with rfl | rfl <;> decide

omit hq in
theorem dropWhile_append_barrier {p : Char → Bool} (h : p q = false) (a b : List Char) :
    (a ++ q :: b).dropWhile p = a.dropWhile p ++ q :: b := by
  induction a with
  | nil => exact List.dropWhile_cons_of_neg (by simp [h])
  | cons c a ih =>
    by_cases hc : p c = true
    · rw [List.cons_append, List.dropWhile_cons_of_pos hc, List.dropWhile_cons_of_pos hc, ih]
    · rw [List.cons_append, List.dropWhile_cons_of_neg hc, List.dropWhile_cons_of_neg hc,
        List.cons_append]

omit hq in
theorem head?_append_barrier {c : Char} (h : q ≠ c) (a b : List Char) :
    (a ++ q :: b).head? = some c ↔ a.head? = some c := by
  cases a with
  | nil => simp [h]
  | cons d a => simp

omit hq in
theorem startsWithBreak_append (hb : isBlank q = false) (a b : List Char) :
    startsWithBreak (a ++ q :: b) = startsWithBreak a := by
  have hn : q ≠ '\n' := (ne_of_isBlank (by decide) hb).symm
  have hr : q ≠ '\r' := (ne_of_isBlank (by decide) hb).symm
  rw [startsWithBreak, startsWithBreak, dropWhile_append_barrier (isInline_of_not_blank hb)]
  cases a.dropWhile isInline with
  | nil => simp [hn, hr]
  | cons c t =>
    cases t with
    | nil =>
      by_cases hc : c = '\n'
      · subst hc
        rfl
      · simp [hc, hn]
    | cons d t =>
      simp only [List.cons_append]
      split <;> rename_i h <;> simp_all

theorem joinAfterTag_append_quote (a b : List Char) :
    joinAfterTag (a ++ q :: b) = joinAfterTag a ++ q :: joinAfterTag b := by
  obtain ⟨hb, -, -, -, hgt, -⟩ := isStringQuote_facts hq
  induction a with
  | nil => exact joinAfterTag_of_ne hgt b
  | cons c a ih =>
    simp only [List.cons_append, joinAfterTag_cons, ih, startsWithBreak_append hb,
      dropWhile_append_barrier hb]
    split <;> rfl

theorem beforeTagState_append_quote (a b : List Char) :
    beforeTagState (a ++ q :: b) =
      ((beforeTagState a).1, joinBeforeTag a ++ q :: joinBeforeTag b) := by
  obtain ⟨hb, hi, -, hlt, -⟩ := isStringQuote_facts hq
  induction a with
  | nil => exact beforeTagState_of_not_blank hb b
  | cons c a ih =>
    have hrest : joinBeforeTag (a ++ q :: b) = joinBeforeTag a ++ q :: joinBeforeTag b := by
      rw [joinBeforeTag_eq, ih]
    rw [joinBeforeTag_eq (c :: a), List.cons_append]
    cases hc : isBlank c with
    | false => rw [beforeTagState_of_not_blank hc, beforeTagState_of_not_blank hc, hrest]; rfl
    | true =>
      rw [beforeTagState_of_blank hc, beforeTagState_of_blank hc, ih, hrest,
        dropWhile_append_barrier hi]
      simp only [head?_append_barrier hlt]
      split
      · rfl
      split <;> rfl

theorem joinBeforeTag_append_quote (a b : List Char) :
    joinBeforeTag (a ++ q :: b) = joinBeforeTag a ++ q :: joinBeforeTag b := by
  rw [joinBeforeTag_eq, beforeTagState_append_quote hq]

theorem joinTags_append_quote (a b : List Char) :
    joinTags (a ++ q :: b) = joinTags a ++ q :: joinTags b := by
  obtain ⟨hb, -, -, hlt, hgt, -⟩ := isStringQuote_facts hq
  induction a with
  | nil => exact joinTags_of_ne hgt b
  | cons c a ih =>
    simp only [List.cons_append, joinTags_cons, ih, dropWhile_append_barrier hb,
      head?_append_barrier hlt]
    split <;> rfl

theorem semicolonState_append_quote (a b : List Char) :
    semicolonState (a ++ q :: b) =
      ((semicolonState a).1, dropSemicolons a ++ q :: dropSemicolons b) := by
  obtain ⟨hb, -, -, -, -, -, -, hs, hc⟩ := isStringQuote_facts hq
  induction a with
  | nil => exact semicolonState_of_ne hb hs b
  | cons c a ih =>
    have hrest : dropSemicolons (a ++ q :: b) = dropSemicolons a ++ q :: dropSemicolons b := by
      rw [dropSemicolons_eq, ih]
    rw [dropSemicolons_eq (c :: a), List.cons_append]
    cases hblank : isBlank c with
    | true =>
      rw [semicolonState_of_blank hblank, semicolonState_of_blank hblank, ih, hrest]
      rfl
    | false =>
      by_cases h : c = ';'
      · subst h
        rw [semicolonState_semicolon, semicolonState_semicolon, ih, hrest,
          dropWhile_append_barrier hb]
        simp only [head?_append_barrier hc]
        split <;> rfl
      · rw [semicolonState_of_ne hblank h, semicolonState_of_ne hblank h, hrest]
        rfl

theorem tightenPunctuation_append_quote (a b : List Char) :
    tightenPunctuation (a ++ q :: b) = tightenPunctuation a ++ q :: tightenPunctuation b := by
  obtain ⟨hb, -, hp, -⟩ := isStringQuote_facts hq
  induction a with
  | nil => exact tightenPunctuation_of_plain hb hp b
  | cons c a ih =>
    have hany : (tightenPunctuation a ++ q :: tightenPunctuation b).head?.any isPunctuation =
        (tightenPunctuation a).head?.any isPunctuation := by
      cases tightenPunctuation a with
      | nil => simp [hp]
      | cons d t => rfl
    simp only [List.cons_append, tightenPunctuation_cons, ih, dropWhile_append_barrier hb, hany]
    split
    · rfl
    split <;> rfl

theorem collapse_append_quote (a b : List Char) :
    collapse (a ++ q :: b) = collapse a ++ q :: collapse b := by
  obtain ⟨hb, -⟩ := isStringQuote_facts hq
  have hspace : q ≠ ' ' := fun e => by
    rw [e] at hb
    cases hb
  induction a with
  | nil => exact collapse_cons_of_not_blank hb b
  | cons c a ih =>
    simp only [List.cons_append, collapse_cons, ih, head?_append_barrier hspace]
    split
    · split <;> rfl
    · rfl

/-- **Code can be cut at a quotation mark.** -/
theorem minifyCode_append_quote (a b : List Char) :
    minifyCode (a ++ q :: b) = minifyCode a ++ q :: minifyCode b := by
  have hsemi : ∀ a b, dropSemicolons (a ++ q :: b) = dropSemicolons a ++ q :: dropSemicolons b :=
    fun a b => by rw [dropSemicolons_eq, semicolonState_append_quote hq]
  rw [minifyCode, joinAfterTag_append_quote hq, joinBeforeTag_append_quote hq,
    collapse_append_quote hq, joinTags_append_quote hq, hsemi, tightenPunctuation_append_quote hq]
  rfl

end

end SvgComponent.Source
