import SvgComponent.Proofs.CodePasses

/-!
# Code that keeps its blanks

When the passes over code do no more than replace each run of blanks by one space. That can be seen one
character at a time: no blank stands next to punctuation, no semicolon in front of a closing brace, no line
break at the end of the line before a tag, and neither a line break nor another tag behind the blanks
behind one.

* `isSteady`: that a text is such code.
* `minifyCode_eq_collapse_iff`: the passes replace runs of blanks only, exactly if it is.
-/

namespace SvgComponent.Source

open Text

/-- Whether the passes leave `c` alone, and the blanks before or behind it, with `s` behind it. -/
def isSteadyAt (c : Char) (s : List Char) : Bool :=
  if isBlank c then
    !(s.head?.any isPunctuation || c == '\n' && (s.dropWhile isInline).head? == some '<')
  else if isPunctuation c then
    !(s.head?.any isBlank || c == ';' && s.head? == some '\x7d')
  else
    !(c == '>' && s.head?.any isBlank &&
      (startsWithBreak s || (s.dropWhile isBlank).head? == some '<'))

/-- Whether the passes leave every character of code alone, but for runs of blanks. -/
def isSteady : List Char → Bool
  | [] => true
  | c :: s => isSteadyAt c s && isSteady s

/-! ## Blanks before a tag -/

theorem head?_dropInline_joinAfterTag (s : List Char) :
    ((joinAfterTag s).dropWhile isInline).head? = (s.dropWhile isInline).head? := by
  induction s with
  | nil => rfl
  | cons c s ih =>
    by_cases hc : isInline c = true
    · have hne : c ≠ '>' := ne_of_isBlank (isBlank_of_isInline hc) (by decide)
      rw [joinAfterTag_of_ne hne, List.dropWhile_cons_of_pos hc, List.dropWhile_cons_of_pos hc, ih]
    · obtain ⟨t, ht⟩ := List.head?_eq_some_iff.1 (head?_joinAfterTag (c :: s))
      rw [ht, List.dropWhile_cons_of_neg hc, List.dropWhile_cons_of_neg hc]
      rfl

/-- As long as the state is unset, the pass has dropped nothing at the start. -/
theorem joinBeforeTag_of_unset {c : Char} {s : List Char}
    (h : (beforeTagState (c :: s)).1 = false) :
    joinBeforeTag (c :: s) = c :: joinBeforeTag s ∧
      (isBlank c = true → (beforeTagState s).1 = false) := by
  cases hb : isBlank c with
  | false => exact ⟨joinBeforeTag_of_not_blank hb s, fun h => by cases h⟩
  | true =>
    rw [joinBeforeTag_eq (c :: s)]
    rw [beforeTagState_of_blank hb] at h ⊢
    split at h
    · cases h
    · rename_i hs
      split at h
      · cases h
      · rename_i hn
        rw [if_neg hs, if_neg hn]
        exact ⟨rfl, fun _ => by simpa using hs⟩

theorem head?_dropInline_joinBeforeTag (s : List Char) (h : (beforeTagState s).1 = false) :
    ((joinBeforeTag s).dropWhile isInline).head? = (s.dropWhile isInline).head? := by
  induction s with
  | nil => rfl
  | cons c s ih =>
    obtain ⟨hc, hs⟩ := joinBeforeTag_of_unset h
    rw [hc]
    by_cases hi : isInline c = true
    · rw [List.dropWhile_cons_of_pos hi, List.dropWhile_cons_of_pos hi,
        ih (hs (isBlank_of_isInline hi))]
    · rw [List.dropWhile_cons_of_neg hi, List.dropWhile_cons_of_neg hi]
      rfl

/-- A line break goes, with all the blanks behind it, if only inline blanks and a tag follow. -/
theorem joined_break {s : List Char} (h : (s.dropWhile isInline).head? = some '<') :
    joined ('\n' :: s) = joined (s.dropWhile isBlank) := by
  have hbreak : joinBeforeTag ('\n' :: joinAfterTag s) =
      (joinBeforeTag (joinAfterTag s)).dropWhile isBlank := by
    rw [joinBeforeTag_eq ('\n' :: _), beforeTagState_of_blank (by decide)]
    cases hs : (beforeTagState (joinAfterTag s)).1 with
    | true => exact (dropWhile_of_head? (head?_of_joined _ hs) (by decide)).symm
    | false =>
      have hinline : ((joinBeforeTag (joinAfterTag s)).dropWhile isInline).head? = some '<' := by
        rw [head?_dropInline_joinBeforeTag _ hs, head?_dropInline_joinAfterTag, h]
      rw [if_neg (by simp), if_pos ⟨rfl, hinline⟩, ← dropBlanks_dropInline]
      exact (dropWhile_of_head? hinline (by decide)).symm
  rw [joined, joinAfterTag_of_ne (by decide), hbreak, stripStart_joinBeforeTag,
    stripStart_joinAfterTag, joined]

section
variable {b : Char} (hb : isBlank b = true)
include hb

/-- A blank that is no such break stays before the pass between tags, or goes with the blanks behind it. -/
theorem joinBeforeTag_of_not_break {s : List Char}
    (h : ¬(b = '\n' ∧ (s.dropWhile isInline).head? = some '<')) :
    joinBeforeTag (b :: joinAfterTag s) =
      if (beforeTagState (joinAfterTag s)).1 = true then joinBeforeTag (joinAfterTag s)
      else b :: joinBeforeTag (joinAfterTag s) := by
  rw [joinBeforeTag_eq (b :: _), beforeTagState_of_blank hb]
  cases hs : (beforeTagState (joinAfterTag s)).1 with
  | true => rfl
  | false =>
    rw [← head?_dropInline_joinAfterTag, ← head?_dropInline_joinBeforeTag _ hs] at h
    simp only [Bool.false_eq_true, if_false, h]

/-- A blank in front of another one makes no difference, unless it is such a break. -/
theorem joined_blanks {c : Char} (hc : isBlank c = true) {s : List Char}
    (h : ¬(b = '\n' ∧ ((c :: s).dropWhile isInline).head? = some '<')) :
    joined (b :: c :: s) = joined (c :: s) := by
  have hne : ∀ {d : Char}, isBlank d = true → d ≠ '>' := fun hd => ne_of_isBlank hd (by decide)
  rw [joined, joinAfterTag_of_ne (hne hb), joinBeforeTag_of_not_break hb h]
  cases hs : (beforeTagState (joinAfterTag (c :: s))).1 with
  | true => rfl
  | false =>
    rw [joinAfterTag_of_ne (hne hc)] at hs
    rw [if_neg (by simp), joined, joinAfterTag_of_ne (hne hc), (joinBeforeTag_of_unset hs).1,
      collapse_cons_of_blank hb, List.dropWhile_cons_of_pos hc, collapse_cons_of_blank hc]

/-- The last blank of a run becomes a space, unless it is such a break. -/
theorem joined_last_blank {s : List Char} (hs : Clear isBlank s)
    (h : ¬(b = '\n' ∧ (s.dropWhile isInline).head? = some '<')) :
    joined (b :: s) = ' ' :: joined s := by
  have hunset : (beforeTagState (joinAfterTag s)).1 = false := by
    cases s with
    | nil => rfl
    | cons c s =>
      rw [clear_cons] at hs
      obtain ⟨t, ht⟩ := List.head?_eq_some_iff.1 (head?_joinAfterTag (c :: s))
      rw [ht, beforeTagState_of_not_blank hs]
  rw [joined, joinAfterTag_of_ne (ne_of_isBlank hb (by decide)), joinBeforeTag_of_not_break hb h,
    if_neg (by simp [hunset]), collapse_cons_of_blank hb, joinTags_of_ne (by decide),
    stripStart_joinBeforeTag, stripStart_joinAfterTag, hs.dropWhile, joined]

end

/-! ## One character -/

theorem clear_minifyCode_dropBlanks (s : List Char) :
    Clear isBlank (minifyCode (s.dropWhile isBlank)) := by
  rw [← stripStart_minifyCode]
  exact clear_dropWhile isBlank _

/-- Blanks that are dropped at the start are missed. -/
theorem minifyCode_dropBlanks_eq_iff (s : List Char) :
    minifyCode (s.dropWhile isBlank) = collapse s ↔
      s.head?.any isBlank = false ∧ minifyCode s = collapse s := by
  cases s with
  | nil => simp [collapse]
  | cons c s =>
    cases hc : isBlank c with
    | true =>
      have hclear := clear_minifyCode_dropBlanks (c :: s)
      refine ⟨fun h => ?_, fun h => by simp [hc] at h⟩
      rw [h, collapse_cons_of_blank hc, clear_cons] at hclear
      cases hclear
    | false =>
      rw [List.dropWhile_cons_of_neg (by simp [hc])]
      simp [hc]

/-- Blanks at the start leave the state of the pass over semicolons alone. -/
theorem semicolonState_dropBlanks (s : List Char) :
    (semicolonState (s.dropWhile isBlank)).1 = (semicolonState s).1 := by
  induction s with
  | nil => rfl
  | cons c s ih =>
    cases hc : isBlank c with
    | true => rw [List.dropWhile_cons_of_pos hc, semicolonState_of_blank hc, ih]
    | false => rw [List.dropWhile_cons_of_neg (by simp [hc])]

/-- **A semicolon goes in front of a closing brace**, with the blanks between them. -/
theorem minifyCode_semicolon_brace {s : List Char} (h : (s.dropWhile isBlank).head? = some '\x7d') :
    minifyCode (';' :: s) = minifyCode (s.dropWhile isBlank) := by
  obtain ⟨t, ht⟩ := List.head?_eq_some_iff.1 h
  have hunused : (semicolonState (joined s)).1 = false := by
    rw [← semicolonState_dropBlanks, stripStart_joined, ht, joined_of_ne (by decide) (by decide),
      semicolonState_of_ne (by decide) (by decide)]
  have hhead : ((dropSemicolons (joined s)).dropWhile isBlank).head? = some '\x7d' := by
    rw [head?_of_unused _ hunused, head?_stripStart_joined, h]
  rw [minifyCode_eq, joined_of_ne (by decide) (by decide), dropSemicolons_eq,
    semicolonState_semicolon, if_pos ⟨hunused, hhead⟩, stripStart_dropSemicolons, stripStart_joined,
    ← minifyCode_eq]

theorem steady_semicolon (s : List Char) :
    minifyCode (';' :: s) = collapse (';' :: s) ↔
      isSteadyAt ';' s = true ∧ minifyCode s = collapse s := by
  have hat : isSteadyAt ';' s = !(s.head?.any isBlank || s.head? == some '\x7d') := rfl
  rw [hat, collapse_cons_of_not_blank (by decide)]
  by_cases hs : (s.dropWhile isBlank).head? = some '\x7d'
  · obtain ⟨t, ht⟩ := List.head?_eq_some_iff.1 hs
    rw [minifyCode_semicolon_brace hs, ht, minifyCode_punctuation (by decide) (by decide)]
    refine ⟨(by cases ·), fun h => ?_⟩
    -- the brace stands right behind the semicolon, or a blank does
    cases s with
    | nil => cases ht
    | cons c s =>
      cases hc : isBlank c with
      | true => simp [hc] at h
      | false =>
        rw [List.dropWhile_cons_of_neg (by simp [hc])] at ht
        simp [(List.cons.inj ht).1] at h
  · have hne : s.head? ≠ some '\x7d' := fun h => hs (by rw [dropWhile_of_head? h (by decide), h])
    rw [(minifyCode_semicolon s).resolve_right fun h => hs h.1, List.cons.injEq,
      minifyCode_dropBlanks_eq_iff]
    simp [hne]

theorem head?_minifyCode_any {s : List Char} (hs : Clear isBlank s) :
    (minifyCode s).head?.any isPunctuation = s.head?.any isPunctuation := by
  cases s with
  | nil => rfl
  | cons c s =>
    rw [clear_cons] at hs
    by_cases hc : c = ';'
    · subst hc
      rcases minifyCode_semicolon s with h | ⟨h, h'⟩
      · rw [h]
        rfl
      · obtain ⟨t, ht⟩ := List.head?_eq_some_iff.1 h
        rw [h', ht, minifyCode_punctuation (by decide) (by decide)]
        rfl
    · rcases minifyCode_keep hs hc s with h | ⟨-, h⟩ <;> rw [h] <;> rfl

section
variable {b : Char} (hb : isBlank b = true)
include hb

theorem steady_break {s : List Char} (hbreak : b = '\n' ∧ (s.dropWhile isInline).head? = some '<') :
    minifyCode (b :: s) ≠ collapse (b :: s) := by
  obtain ⟨rfl, hs⟩ := hbreak
  intro h
  have hclear := clear_minifyCode_dropBlanks s
  rw [minifyCode_eq, ← joined_break hs, ← minifyCode_eq, h, collapse_cons_of_blank hb, clear_cons]
    at hclear
  cases hclear

theorem steady_last_blank {s : List Char} (hs : Clear isBlank s)
    (h : ¬(b = '\n' ∧ (s.dropWhile isInline).head? = some '<')) :
    minifyCode (b :: s) = collapse (b :: s) ↔
      s.head?.any isPunctuation = false ∧ minifyCode s = collapse s := by
  rw [minifyCode_eq, joined_last_blank hb hs h, dropSemicolons_of_ne (by decide),
    tightenPunctuation_of_blank (by decide), ← minifyCode_eq, head?_minifyCode_any hs,
    collapse_cons_of_blank hb, hs.dropWhile]
  split
  · rename_i hp
    have hclear := clear_minifyCode_dropBlanks s
    rw [hs.dropWhile] at hclear
    refine ⟨fun h => ?_, fun h => by simp [hp] at h⟩
    rw [h, clear_cons] at hclear
    cases hclear
  · rename_i hp
    simp [hp]

theorem steady_blank (s : List Char) :
    minifyCode (b :: s) = collapse (b :: s) ↔
      isSteadyAt b s = true ∧ minifyCode s = collapse s := by
  rw [isSteadyAt, if_pos hb]
  by_cases hbreak : b = '\n' ∧ (s.dropWhile isInline).head? = some '<'
  · refine ⟨fun h => absurd h (steady_break hb hbreak), fun h => ?_⟩
    simp [hbreak.1, hbreak.2] at h
  · have hat : (b == '\n' && (s.dropWhile isInline).head? == some '<') = false := by
      simpa using hbreak
    rw [hat, Bool.or_false, Bool.not_eq_true']
    -- of a run of blanks only the last one has something else behind it
    cases s with
    | nil => exact steady_last_blank hb (clear_nil _) hbreak
    | cons c s =>
      cases hc : isBlank c with
      | false => exact steady_last_blank hb ((clear_cons _ _ _).2 hc) hbreak
      | true =>
        have hp : isPunctuation c = false := isPunctuation_of_isBlank hc
        rw [minifyCode_eq, joined_blanks hb hc hbreak, ← minifyCode_eq, collapse_cons_of_blank hb,
          List.dropWhile_cons_of_pos hc, ← collapse_cons_of_blank hc]
        simp [hp]

end

/-- **Code changes in runs of blanks only** if that holds of its first character and of the rest. -/
theorem steady_cons (c : Char) (s : List Char) :
    minifyCode (c :: s) = collapse (c :: s) ↔
      isSteadyAt c s = true ∧ minifyCode s = collapse s := by
  cases hb : isBlank c with
  | true => exact steady_blank hb s
  | false =>
    by_cases hsemicolon : c = ';'
    · rw [hsemicolon]
      exact steady_semicolon s
    rw [collapse_cons_of_not_blank hb, isSteadyAt, if_neg (by simp [hb])]
    cases hp : isPunctuation c with
    | true =>
      rw [if_pos rfl, minifyCode_punctuation hp hsemicolon, List.cons.injEq,
        minifyCode_dropBlanks_eq_iff]
      simp [hsemicolon]
    | false =>
      rw [if_neg (by simp)]
      by_cases hc : c = '>'
      · subst hc
        rw [minifyCode_tag]
        split
        · rename_i h
          have hgoes : (startsWithBreak s || (s.dropWhile isBlank).head? == some '<') = true := by
            simpa using h
          rw [List.cons.injEq, minifyCode_dropBlanks_eq_iff, hgoes]
          simp
        · rename_i h
          have hstays : (startsWithBreak s || (s.dropWhile isBlank).head? == some '<') = false := by
            simpa using h
          rw [List.cons.injEq, hstays]
          simp
      · rw [minifyCode_plain hb hp hc]
        simp [hc]

/-- **The passes over code replace runs of blanks only** if and only if it is steady. -/
theorem minifyCode_eq_collapse_iff (s : List Char) :
    minifyCode s = collapse s ↔ isSteady s = true := by
  induction s with
  | nil => simp [isSteady, collapse]
  | cons c s ih => rw [steady_cons, ih, isSteady, Bool.and_eq_true]

example : isSteady "M0 0 L1,1 a:b".toList = true ∧ isSteady "a , b".toList = false ∧
    isSteady "x;\x7d".toList = false ∧ isSteady "a >\n b".toList = false := by decide

end SvgComponent.Source
