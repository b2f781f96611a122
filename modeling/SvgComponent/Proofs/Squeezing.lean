import SvgComponent.Proofs.BlankRuns

/-!
# Line breaks and the blanks around them

`squeeze` writes each run of blanks that holds a line break as one line feed, and leaves all other
characters. Texts are `Respaced` if they are the same when squeezed.

* `squeeze_append`: a text can be squeezed in parts, if it is not cut inside a run of blanks.
* `squeeze_congr`: texts put together from parts that are respaced are respaced.
* `respacing_squeeze`: squeezing changes blanks only.
-/

namespace SvgComponent.Text

/-! ## Squeezing -/

/-- Puts `c` in front of a squeezed text. -/
def squeeze.push (c : Char) (rest : List Char) : List Char :=
  if isBreak c then '\n' :: rest.dropWhile isBlank
  else if isBlank c && rest.head? == some '\n' then rest
  else c :: rest

/-- Every maximal run of blanks that holds a line break replaced by one line feed. -/
def squeeze (s : List Char) : List Char := s.foldr squeeze.push []

@[simp] theorem squeeze_nil : squeeze [] = [] := rfl

theorem squeeze_cons (c : Char) (s : List Char) : squeeze (c :: s) = squeeze.push c (squeeze s) := rfl

theorem not_isBreak_of_not_blank {c : Char} (h : isBlank c = false) : isBreak c = false := by
  cases hc : isBreak c with
  | false => rfl
  | true =>
    simp only [isBreak, Bool.or_eq_true, beq_iff_eq] at hc
    rcases hc with rfl | rfl <;> cases h

theorem squeeze_cons_of_not_blank {c : Char} (h : isBlank c = false) (s : List Char) :
    squeeze (c :: s) = c :: squeeze s := by
  simp [squeeze_cons, squeeze.push, h, not_isBreak_of_not_blank h]

/-- Blanks that a squeezed text starts with stay blanks, and no others come. -/
theorem dropWhile_squeeze (s : List Char) :
    (squeeze s).dropWhile isBlank = squeeze (s.dropWhile isBlank) := by
  induction s with
  | nil => rfl
  | cons c s ih =>
    by_cases hc : isBlank c = true
    · rw [List.dropWhile_cons_of_pos hc, ← ih, squeeze_cons, squeeze.push]
      split
      · rw [List.dropWhile_cons_of_pos (by decide)]
        exact (clear_dropWhile isBlank _).dropWhile
      split
      · rfl
      · rw [List.dropWhile_cons_of_pos hc]
    · rw [Bool.not_eq_true] at hc
      rw [squeeze_cons_of_not_blank hc, List.dropWhile_cons_of_neg (by simp [hc]),
        List.dropWhile_cons_of_neg (by simp [hc]), squeeze_cons_of_not_blank hc]

theorem clear_squeeze {s : List Char} (h : Clear isBlank s) : Clear isBlank (squeeze s) := by
  rw [← h.dropWhile, ← dropWhile_squeeze]
  exact clear_dropWhile isBlank _

/-- A text can be squeezed in two parts if the second starts with no blank. -/
theorem squeeze_append {s : List Char} (h : Clear isBlank s) (a : List Char) :
    squeeze (a ++ s) = squeeze a ++ squeeze s := by
  have hs := clear_squeeze h
  induction a with
  | nil => rfl
  | cons c a ih =>
    rw [List.cons_append, squeeze_cons, ih, squeeze_cons, squeeze.push, squeeze.push]
    split
    · rw [List.cons_append, List.dropWhile_append]
      split
      · rename_i he
        rw [List.isEmpty_iff.1 he, hs.dropWhile, List.nil_append]
      · rfl
    · have hhead : ((squeeze a ++ squeeze s).head? == some '\n') =
          ((squeeze a).head? == some '\n') := by
        cases hq : squeeze a with
        | cons d t => rfl
        | nil =>
          cases hr : squeeze s with
          | nil => rfl
          | cons d t =>
            rw [hr, clear_cons] at hs
            have hd : d ≠ '\n' := by
              rintro rfl
              cases hs
            simp [hd]
      rw [hhead]
      split <;> rfl

theorem squeeze_eq_nil {s : List Char} : squeeze s = [] ↔ s = [] := by
  cases s with
  | nil => simp
  | cons c s =>
    simp only [squeeze_cons, squeeze.push, reduceCtorEq, iff_false]
    split
    · simp
    split
    · rename_i h
      rintro he
      simp [he] at h
    · simp

theorem dropWhile_squeeze_append (a b : List Char) :
    (squeeze (a.dropWhile isBlank ++ b)).dropWhile isBlank =
      (squeeze (a ++ b)).dropWhile isBlank := by
  rw [dropWhile_squeeze, dropWhile_squeeze, List.dropWhile_append, List.dropWhile_append,
    (clear_dropWhile isBlank a).dropWhile]

/-- Squeezing the start of a text first changes nothing. -/
theorem squeeze_squeeze_append (a b : List Char) : squeeze (squeeze a ++ b) = squeeze (a ++ b) := by
  induction a with
  | nil => rfl
  | cons c a ih =>
    rw [List.cons_append, squeeze_cons c (a ++ b), ← ih, squeeze_cons, squeeze.push]
    split
    · rename_i hc
      rw [List.cons_append, squeeze_cons, squeeze.push, if_pos (by decide),
        dropWhile_squeeze_append, squeeze.push,
        if_pos hc]
    split
    · rename_i hn hc
      simp only [Bool.and_eq_true, beq_iff_eq] at hc
      cases ha : squeeze a with
      | nil => simp [ha] at hc
      | cons d t =>
        obtain rfl : d = '\n' := by simpa [ha] using hc.2
        rw [List.cons_append, squeeze_cons '\n', squeeze.push, if_pos (by decide), squeeze.push,
          if_neg (by simpa using hn)]
        simp [hc.1]
    · rw [List.cons_append, squeeze_cons]

theorem squeeze_squeeze (a : List Char) : squeeze (squeeze a) = squeeze a := by
  simpa using squeeze_squeeze_append a []

theorem squeeze_append_squeeze (a b : List Char) : squeeze (a ++ squeeze b) = squeeze (a ++ b) := by
  induction a with
  | nil => exact squeeze_squeeze b
  | cons c a ih => rw [List.cons_append, squeeze_cons, ih, List.cons_append, squeeze_cons]

theorem squeeze_congr {a b c d : List Char} (hab : squeeze a = squeeze b) (hcd : squeeze c = squeeze d) :
    squeeze (a ++ c) = squeeze (b ++ d) := by
  rw [← squeeze_squeeze_append, hab, squeeze_squeeze_append, ← squeeze_append_squeeze, hcd,
    squeeze_append_squeeze]

/-- The same text up to the blanks around line breaks. -/
def Respaced (s t : List Char) : Prop := squeeze s = squeeze t

/-- A squeezed text that starts with anything but a line break comes from a text that starts so. -/
theorem exists_of_squeeze_eq_cons {c : Char} (hc : isBreak c = false) {s t : List Char}
    (h : squeeze s = c :: t) : ∃ r, s = c :: r ∧ squeeze r = t := by
  cases s with
  | nil => cases h
  | cons d s =>
    rw [squeeze_cons, squeeze.push] at h
    split at h
    · obtain ⟨rfl, -⟩ := List.cons.inj h
      cases hc
    split at h
    · rename_i hs
      obtain rfl : c = '\n' := by simpa [h] using (Bool.and_eq_true_iff.1 hs).2
      cases hc
    · obtain ⟨rfl, rfl⟩ := List.cons.inj h
      exact ⟨s, rfl, rfl⟩

/-- Squeezing changes blanks only. -/
theorem respacing_squeeze : Respacing squeeze where
  solid := squeeze_cons_of_not_blank
  append := squeeze_append
  blanks := by
    intro a hne ha
    have hend : a.dropWhile isBlank = [] := by
      simpa using dropWhile_append_clear ha (clear_nil isBlank)
    have hrun : (squeeze a).takeWhile isBlank = squeeze a := by
      have hcut : (squeeze a).takeWhile isBlank ++ (squeeze a).dropWhile isBlank = squeeze a :=
        List.takeWhile_append_dropWhile
      rwa [dropWhile_squeeze, hend, squeeze_nil, List.append_nil] at hcut
    refine ⟨mt squeeze_eq_nil.1 hne, ?_⟩
    rw [← hrun]
    exact List.all_eq_true.1 List.all_takeWhile

/-- Texts that differ in the blanks around line breaks are the same when collapsed. -/
theorem Respaced.collapse_eq {s t : List Char} (h : Respaced s t) : collapse s = collapse t := by
  rw [← respacing_squeeze.collapse s, h, respacing_squeeze.collapse]

end SvgComponent.Text
