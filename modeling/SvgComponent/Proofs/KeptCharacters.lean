import SvgComponent.Proofs.Indented
import SvgComponent.Proofs.Literals

/-!
# What minifying keeps

`Shortened s t` says all that can become of source character by character: a blank goes or becomes a space
in front of something else, a semicolon goes in front of a closing brace, and everything else stays.
Minified source is shortened in this sense (`shortened_minifyFrom`), and the rest follows from that alone,
whatever the literals and the passes were:

* `Shortened.dropsSemicolons`: apart from blanks only semicolons before closing braces are gone.
* `Shortened.eq_space`, `Shortened.not_pair`: the blanks that are left are single spaces.
-/

namespace SvgComponent.Source

open Text Jsx

/-! ## Stripped text -/

theorem isInfix_strip (s : List Char) : strip s <:+: s := by
  obtain ⟨a, b, hs, -, -⟩ := exists_strip s
  exact ⟨a, b, hs.symm⟩

theorem getLast?_stripEnd {s : List Char} {c : Char} (h : (stripEnd s).getLast? = some c) :
    isBlank c = false := by
  induction s with
  | nil => cases h
  | cons d s ih =>
    rw [stripEnd_cons] at h
    split at h
    · cases h
    · rename_i hd
      cases hs : stripEnd s with
      | nil =>
        rw [hs] at h hd
        obtain rfl : d = c := by simpa using h
        simpa using hd
      | cons e t =>
        rw [hs, List.getLast?_cons_cons, ← hs] at h
        exact ih h

theorem clear_strip (s : List Char) : Clear isBlank (strip s) := by
  intro c hc
  obtain ⟨b, hs, -⟩ := exists_stripEnd (stripStart s)
  refine clear_dropWhile isBlank s c ?_
  rw [← stripStart, hs, List.head?_append, ← strip, hc]
  rfl

theorem stripEnd_stripEnd (s : List Char) : stripEnd (stripEnd s) = stripEnd s := by
  cases hlast : (stripEnd s).getLast? with
  | none => rw [List.getLast?_eq_none_iff.1 hlast, stripEnd_nil]
  | some c => exact stripEnd_of_getLast? (getLast?_stripEnd hlast) hlast

theorem strip_strip (s : List Char) : strip (strip s) = strip s := by
  rw [strip, stripStart, (clear_strip s).dropWhile, strip, stripEnd_stripEnd]

/-! ## Shortened source -/

/-- `t` is `s` without some of its blanks and some semicolons in front of closing braces. A blank that is
left is a space, with no other behind it. -/
inductive Shortened : List Char → List Char → Prop
  | nil : Shortened [] []
  | char {c : Char} {s t : List Char} (hc : isBlank c = false) :
      Shortened s t → Shortened (c :: s) (c :: t)
  | semicolon {s t : List Char} (hs : (s.dropWhile isBlank).head? = some '\x7d') :
      Shortened s t → Shortened (';' :: s) t
  | blank {b : Char} {s t : List Char} (hb : isBlank b = true) :
      Shortened s t → Shortened (b :: s) t
  | space {b : Char} {s t : List Char} (hb : isBlank b = true) (ht : Clear isBlank t) :
      Shortened s t → Shortened (b :: s) (' ' :: t)

theorem Shortened.of_dropBlanks {s t : List Char} (h : Shortened (s.dropWhile isBlank) t) :
    Shortened s t := by
  induction s with
  | nil => exact h
  | cons c s ih =>
    cases hc : isBlank c with
    | false => rwa [List.dropWhile_cons_of_neg (by simp [hc])] at h
    | true =>
      rw [List.dropWhile_cons_of_pos hc] at h
      exact .blank hc (ih h)

/-- **Minifying shortens source**, whatever the source is read as. -/
theorem shortened_minifyFrom (r : Reading) (rest s : List Char) :
    Shortened s (minifyFrom r rest s) := by
  -- By induction on the length, since a step can take the blanks behind a character with it.
  induction hn : s.length using Nat.strongRecOn generalizing r s with
  | ind n ih =>
    cases s with
    | nil =>
      rw [minifyFrom_nil]
      exact .nil
    | cons c s =>
      rw [List.length_cons] at hn
      have hdrop : (s.dropWhile isBlank).length ≤ s.length := (List.dropWhile_sublist _).length_le
      have hnext : ∀ r', Shortened s (minifyFrom r' rest s) := fun r' => ih _ (by omega) r' s rfl
      have hskip : Shortened s (minifyFrom r rest (s.dropWhile isBlank)) :=
        .of_dropBlanks (ih _ (by omega) r _ rfl)
      cases hq : isStringQuote c with
      | true =>
        rw [minifyFrom_quote r rest hq]
        exact .char (isStringQuote_facts hq).1 (hnext _)
      | false =>
        cases hb : isBlank c with
        | true =>
          rcases minifyFrom_blank r rest hb s with h | ⟨-, h⟩
          · rw [h]
            exact .space hb (clear_minifyFrom r rest (clear_dropWhile isBlank s)) hskip
          · rw [h]
            exact .blank hb hskip
        | false =>
          by_cases hc : c = ';'
          · subst hc
            obtain ⟨t, ht, h⟩ := minifyFrom_semicolon r rest s
            have hstep : Shortened s (minifyFrom r rest t) := by
              rcases ht with rfl | rfl
              · exact hnext r
              · exact hskip
            rcases h with h | ⟨hbrace, h⟩
            · rw [h]
              exact .char hb hstep
            · rw [h]
              refine .semicolon ?_ hstep
              rcases ht with rfl | rfl
              · obtain ⟨u, rfl⟩ := List.head?_eq_some_iff.1 hbrace
                rfl
              · exact hbrace
          · rcases minifyFrom_keep r rest hb hq hc s with h | ⟨-, h⟩
            · rw [h]
              exact .char hb (hnext r)
            · rw [h]
              exact .char hb hskip

/-! ## What is gone -/

/-- `t` is `s` without some semicolons, each of which has a closing brace right behind it in `s`. -/
inductive DropsSemicolons : List Char → List Char → Prop
  | nil : DropsSemicolons [] []
  | keep (c : Char) {s t : List Char} : DropsSemicolons s t → DropsSemicolons (c :: s) (c :: t)
  | drop {s t : List Char} : DropsSemicolons ('\x7d' :: s) t →
      DropsSemicolons (';' :: '\x7d' :: s) t

theorem squash_dropBlanks (s : List Char) : squash (s.dropWhile isBlank) = squash s := by
  induction s with
  | nil => rfl
  | cons c s ih =>
    by_cases hc : isBlank c = true
    · rw [List.dropWhile_cons_of_pos hc, ih, squash_cons, if_pos hc]
    · rw [List.dropWhile_cons_of_neg hc]

theorem squash_strip (s : List Char) : squash (strip s) = squash s := by
  obtain ⟨a, b, hs, ha, hb⟩ := exists_strip s
  conv_rhs => rw [hs]
  rw [squash_append, squash_append, squash_eq_nil.2 ha, squash_eq_nil.2 hb, List.nil_append,
    List.append_nil]

section
variable {s t : List Char} (h : Shortened s t)
include h

theorem Shortened.dropsSemicolons : DropsSemicolons (squash s) (squash t) := by
  induction h with
  | nil => exact .nil
  | char hc _ ih =>
    rw [squash_cons, squash_cons, if_neg (by simp [hc]), if_neg (by simp [hc])]
    exact .keep _ ih
  | @semicolon s t hs _ ih =>
    -- The brace is the next character of the squashed source too.
    obtain ⟨u, hu⟩ := List.head?_eq_some_iff.1 hs
    have hbrace : squash s = '\x7d' :: squash u := by
      rw [← squash_dropBlanks, hu, squash_cons, if_neg (by decide)]
    rw [squash_cons, if_neg (by decide), hbrace]
    rw [hbrace] at ih
    exact .drop ih
  | blank hb _ ih =>
    rw [squash_cons, if_pos hb]
    exact ih
  | space hb _ _ ih =>
    rw [squash_cons, if_pos hb, squash_cons, if_pos (by decide)]
    exact ih

theorem Shortened.eq_space : ∀ c ∈ t, isBlank c = true → c = ' ' := by
  induction h with
  | nil => simp
  | @char d s t hd _ ih =>
    intro c hm hc
    rcases List.mem_cons.1 hm with rfl | hm
    · rw [hd] at hc
      cases hc
    · exact ih c hm hc
  | semicolon _ _ ih => exact ih
  | blank _ _ ih => exact ih
  | space _ _ _ ih =>
    intro c hm hc
    rcases List.mem_cons.1 hm with rfl | hm
    · rfl
    · exact ih c hm hc

theorem Shortened.not_pair : ¬[' ', ' '] <:+: t := by
  induction h with
  | nil => simp
  | char hc _ ih =>
    rw [List.infix_cons_iff, not_or]
    refine ⟨fun hp => ?_, ih⟩
    obtain ⟨rfl, -⟩ := List.cons_prefix_cons.1 hp
    cases hc
  | semicolon _ _ ih => exact ih
  | blank _ _ ih => exact ih
  | space _ ht _ ih =>
    rw [List.infix_cons_iff, not_or]
    refine ⟨fun hp => ?_, ih⟩
    obtain ⟨u, rfl⟩ := (List.cons_prefix_cons.1 hp).2
    cases (clear_cons _ _ _).1 ht

end

/-- Text in which blanks are single spaces between other characters. -/
structure SingleSpaced (s : List Char) : Prop where
  eq_space : ∀ c ∈ s, isBlank c = true → c = ' '
  not_pair : ¬[' ', ' '] <:+: s
  first : s.head? ≠ some ' '
  last : s.getLast? ≠ some ' '

/-- **Minifying keeps everything but blanks and semicolons before closing braces.** The blanks it leaves
are single spaces between other characters, so that the source is on one line. -/
theorem minify_keeps (source : List Char) :
    DropsSemicolons (squash source) (squash (minify source)) ∧ SingleSpaced (minify source) ∧
      ∀ c ∈ minify source, isBreak c = false := by
  have h := shortened_minifyFrom .code [] source
  rw [minify_eq_strip, squash_strip]
  have hspace : ∀ c ∈ strip (minifyFrom .code [] source), isBlank c = true → c = ' ' :=
    fun c hc => h.eq_space c (mem_of_mem_strip hc)
  refine ⟨h.dropsSemicolons, ⟨hspace, fun hp => ?_, fun hf => ?_, fun hl => ?_⟩, fun c hc => ?_⟩
  · exact h.not_pair (hp.trans (isInfix_strip _))
  · cases clear_strip _ ' ' hf
  · cases getLast?_stripEnd hl
  · cases hb : isBlank c with
    | false => exact not_isBreak_of_not_blank hb
    | true =>
      rw [hspace c hc hb]
      decide

end SvgComponent.Source
