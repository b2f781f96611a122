import SvgComponent.Proofs.Literals
import SvgComponent.Source.Indent

/-!
# Carriage returns in source

`Carried behind s t` says that `t` is `s` with carriage returns put in front of some of its line feeds.
A carriage return that comes to stand behind another one would be a line break of its own, so none is put
there; `behind` says that one stands right before the two texts.

* `Carried.append`, `Carried.takeWhile`, `Carried.dropWhile`: parts of texts.
* `Carried.indentWith_eq`, `Carried.minify_eq`: such texts are indented and minified to the same text.
-/

namespace SvgComponent.Source

open Text

/-- `t` is `s` with carriage returns in front of some of its line feeds. -/
inductive Carried : Bool → List Char → List Char → Prop
  | nil {behind : Bool} : Carried behind [] []
  | cons {behind : Bool} {s t : List Char} (c : Char) : Carried (c == '\r') s t →
      Carried behind (c :: s) (c :: t)
  | feed {s t : List Char} : Carried false s t → Carried false ('\n' :: s) ('\r' :: '\n' :: t)

namespace Carried

variable {behind : Bool} {s t : List Char}

theorem refl (behind : Bool) (s : List Char) : Carried behind s s := by
  induction s generalizing behind with
  | nil => exact .nil
  | cons c s ih => exact .cons c (ih _)

/-- Where nothing was put in front, it does not matter what stands before. -/
theorem of_behind (h : Carried true s t) (behind : Bool) : Carried behind s t := by
  cases h with
  | nil => exact .nil
  | cons c h => exact .cons c h

theorem weaken (h : Carried behind s t) : Carried false s t := by
  cases behind with
  | false => exact h
  | true => exact h.of_behind false

theorem append {s' t' : List Char} (h : Carried behind s t) (h' : Carried true s' t') :
    Carried behind (s ++ s') (t ++ t') := by
  induction h with
  | nil => exact h'.of_behind _
  | cons c _ ih => exact .cons c ih
  | feed _ ih => exact .feed ih

/-- In front of a text that starts with anything but a line feed nothing is put. -/
theorem of_head? (h : Carried behind s t) {c : Char} (hs : s.head? = some c) (hc : c ≠ '\n') :
    Carried true s t := by
  cases h with
  | nil => cases hs
  | cons d h => exact .cons d h
  | feed h => exact absurd (Option.some.inj hs).symm hc

theorem head?_iff (h : Carried behind s t) {c : Char} (hn : c ≠ '\n') (hr : c ≠ '\r') :
    s.head? = some c ↔ t.head? = some c := by
  cases h with
  | nil => rfl
  | cons d h => rfl
  | feed h => simp [Ne.symm hn, Ne.symm hr]

theorem head?_eq (h : Carried true s t) : s.head? = t.head? := by
  cases h <;> rfl

theorem mem_iff (h : Carried behind s t) {c : Char} (hc : c ≠ '\r') : c ∈ t ↔ c ∈ s := by
  induction h with
  | nil => rfl
  | cons d _ ih => rw [List.mem_cons, List.mem_cons, ih]
  | feed _ ih => simp [ih, hc]

section
variable {p : Char → Bool} (hp : p '\r' = p '\n')
include hp

theorem takeWhile (h : Carried behind s t) : Carried behind (s.takeWhile p) (t.takeWhile p) := by
  induction h with
  | nil => exact .nil
  | cons c _ ih =>
    rw [List.takeWhile_cons, List.takeWhile_cons]
    split
    · exact .cons c ih
    · exact .nil
  | feed _ ih =>
    rw [List.takeWhile_cons, List.takeWhile_cons, List.takeWhile_cons, hp]
    split
    · exact .feed ih
    · exact .nil

theorem dropWhile (h : Carried behind s t) : Carried false (s.dropWhile p) (t.dropWhile p) := by
  induction h with
  | nil => exact .nil
  | cons c h ih =>
    rw [List.dropWhile_cons, List.dropWhile_cons]
    split
    · exact ih
    · exact .cons c h
  | feed h ih =>
    rw [List.dropWhile_cons, List.dropWhile_cons, List.dropWhile_cons, hp]
    split
    · exact ih
    · exact .feed h

end

/-! ## Indenting -/

/-- Going through both texts from the end leaves the same text, and the same knowledge of its first
character unless a carriage return was put there. -/
theorem foldr_push (h : Carried behind s t) :
    (s.foldr unifyBreaks.push (false, [])).2 = (t.foldr unifyBreaks.push (false, [])).2 ∧
      (behind = true → (s.foldr unifyBreaks.push (false, [])).1 =
        (t.foldr unifyBreaks.push (false, [])).1) := by
  induction h with
  | nil => exact ⟨rfl, fun _ => rfl⟩
  | @cons behind s t c h ih =>
    rw [List.foldr_cons, List.foldr_cons]
    obtain ⟨hrest, hfed⟩ := ih
    generalize s.foldr unifyBreaks.push (false, []) = left at hrest hfed ⊢
    generalize t.foldr unifyBreaks.push (false, []) = right at hrest hfed ⊢
    obtain ⟨fed, rest⟩ := left
    obtain ⟨fed', rest'⟩ := right
    obtain rfl : rest = rest' := hrest
    simp only [unifyBreaks.push]
    split
    · rename_i hc
      obtain rfl : fed = fed' := hfed (by simp [hc])
      exact ⟨rfl, fun _ => rfl⟩
    · exact ⟨rfl, fun _ => rfl⟩
  | @feed s t h ih =>
    rw [List.foldr_cons, List.foldr_cons, List.foldr_cons]
    obtain ⟨hrest, -⟩ := ih
    refine ⟨?_, by simp⟩
    simp only [unifyBreaks.push, hrest]
    rfl

theorem unifyBreaks_eq (h : Carried behind s t) : unifyBreaks s = unifyBreaks t := h.foldr_push.1

theorem indentWith_eq (h : Carried behind s t) (unit : List Char) :
    indentWith unit s = indentWith unit t := by
  rw [indentWith, indentWith, h.unifyBreaks_eq]

/-! ## Minifying -/

theorem collapse_eq (h : Carried behind s t) : collapse s = collapse t := by
  induction h with
  | nil => rfl
  | cons c _ ih => rw [collapse_cons, collapse_cons, ih]
  | @feed s t _ ih =>
    have hreturn : collapse ('\r' :: '\n' :: t) = collapse ('\n' :: t) := by
      rw [collapse_cons_of_blank (by decide), collapse_cons_of_blank (by decide),
        List.dropWhile_cons_of_pos (by decide)]
    rw [hreturn, collapse_cons, collapse_cons, ih]

theorem startsWithBreak_eq (h : Carried behind s t) : startsWithBreak s = startsWithBreak t := by
  induction h with
  | nil => rfl
  | @cons behind s t c h ih =>
    rw [startsWithBreak_cons, startsWithBreak_cons, ih]
    by_cases hc : c = '\r'
    · subst hc
      rw [head?_eq h]
    · rw [show (c == '\r') = false by simpa using hc, Bool.false_and, Bool.false_and]
  | feed h ih =>
    rw [startsWithBreak_cons, startsWithBreak_cons]
    rfl

theorem joinAfterTag (h : Carried behind s t) :
    Carried behind (Source.joinAfterTag s) (Source.joinAfterTag t) := by
  induction h with
  | nil => exact .nil
  | @cons behind s t c h ih =>
    rw [joinAfterTag_cons, joinAfterTag_cons]
    by_cases hc : c = '>'
    · subst hc
      rw [ih.startsWithBreak_eq]
      split
      · exact .cons '>' (ih.dropWhile (by decide))
      · exact .cons '>' ih
    · rw [if_neg fun hand => hc hand.1, if_neg fun hand => hc hand.1]
      exact .cons c ih
  | feed h ih =>
    rw [joinAfterTag_of_ne (by decide), joinAfterTag_of_ne (by decide), joinAfterTag_of_ne (by decide)]
    exact .feed ih

end Carried

/-- States of the pass before tags that join the same tag, if any, to the same code but for carriage
returns. -/
structure Joins (behind : Bool) (left right : Bool × List Char) : Prop where
  joined : left.1 = right.1
  code : Carried behind left.2 right.2
  tag : left.1 = true → left.2.head? = some '<'

namespace Joins

variable {left right : Bool × List Char}

theorem inline_iff {behind : Bool} (h : Joins behind left right) :
    (left.2.dropWhile isInline).head? = some '<' ↔ (right.2.dropWhile isInline).head? = some '<' :=
  (h.code.dropWhile (by decide)).head?_iff (by decide) (by decide)

/-- Code that starts with a tag has no carriage return put in front. -/
theorem of_tag {s t : List Char} (h : Carried false s t) (htag : s.head? = some '<') (behind : Bool) :
    Joins behind (true, s) (true, t) :=
  ⟨rfl, (h.of_head? htag (by decide)).of_behind behind, fun _ => htag⟩

theorem push {c : Char} (h : Joins (c == '\r') left right) (behind : Bool) :
    Joins behind (joinBeforeTag.push c left) (joinBeforeTag.push c right) := by
  have htag := h.inline_iff
  obtain ⟨joined, code⟩ := left
  obtain ⟨joined', code'⟩ := right
  obtain ⟨hjoined, hcode, hhead⟩ := h
  obtain rfl : joined = joined' := hjoined
  simp only [joinBeforeTag.push]
  split
  · rename_i hc
    rw [Bool.and_eq_true] at hc
    exact of_tag hcode.weaken (hhead hc.2) behind
  by_cases hc : c = '\n' ∧ (code.dropWhile isInline).head? = some '<'
  · rw [if_pos hc, if_pos ⟨hc.1, htag.1 hc.2⟩]
    exact of_tag (hcode.dropWhile (by decide)) hc.2 behind
  · rw [if_neg hc, if_neg fun hc' => hc ⟨hc'.1, htag.2 hc'.2⟩]
    exact ⟨rfl, .cons c hcode, by simp⟩

/-- A carriage return goes where the line feed behind it goes. -/
theorem feed (h : Joins false left right) :
    Joins false (joinBeforeTag.push '\n' left) (joinBeforeTag.push '\r' (joinBeforeTag.push '\n' right)) := by
  have htag := h.inline_iff
  obtain ⟨joined, code⟩ := left
  obtain ⟨joined', code'⟩ := right
  obtain ⟨hjoined, hcode, hhead⟩ := h
  obtain rfl : joined = joined' := hjoined
  have hn : isBlank '\n' = true := by decide
  have hr : isBlank '\r' = true := by decide
  cases joined with
  | true =>
    simp only [joinBeforeTag.push, hn, hr, Bool.and_self, if_true]
    exact of_tag hcode (hhead rfl) false
  | false =>
    simp only [joinBeforeTag.push, Bool.and_false, Bool.false_eq_true, if_false, true_and]
    by_cases hc : (code.dropWhile isInline).head? = some '<'
    · rw [if_pos hc, if_pos (htag.1 hc)]
      simp only [hr, Bool.and_self, if_true]
      exact of_tag (hcode.dropWhile (by decide)) hc false
    · rw [if_neg hc, if_neg fun hc' => hc (htag.2 hc')]
      simp only [Bool.and_false, Bool.false_eq_true, if_false]
      exact ⟨rfl, .feed hcode, by simp⟩

end Joins

namespace Carried

variable {behind : Bool} {s t : List Char}

/-- The pass before tags joins the same tags. -/
theorem joinBeforeTag (h : Carried behind s t) :
    Carried behind (Source.joinBeforeTag s) (Source.joinBeforeTag t) := by
  have hstate : Joins behind (s.foldr joinBeforeTag.push (false, []))
      (t.foldr joinBeforeTag.push (false, [])) := by
    induction h with
    | nil => exact ⟨rfl, .nil, by simp⟩
    | cons c _ ih => exact ih.push _
    | feed _ ih => exact ih.feed
  exact hstate.code

theorem minifyCode_eq (h : Carried behind s t) : minifyCode s = minifyCode t := by
  rw [minifyCode, minifyCode, h.joinAfterTag.joinBeforeTag.collapse_eq]

/-- The same quotation marks open and close literals. -/
theorem minifyFrom_eq (h : Carried behind s t) (r : Reading) :
    minifyFrom r [] s = minifyFrom r [] t := by
  induction hn : s.length using Nat.strongRecOn generalizing behind s t r with
  | ind n ih =>
    have hquote : (!isStringQuote '\r') = !isStringQuote '\n' := by decide
    have hstart := h.takeWhile (p := (!isStringQuote ·)) hquote
    have hrest := h.dropWhile (p := (!isStringQuote ·)) hquote
    have hshorten : r.shorten (s.takeWhile (!isStringQuote ·)) =
        r.shorten (t.takeWhile (!isStringQuote ·)) := by
      cases r with
      | code => exact hstart.minifyCode_eq
      | literal mark => exact hstart.collapse_eq
    have hclear := clear_dropWhile (!isStringQuote ·) s
    have hlength := (List.dropWhile_sublist (l := s) (!isStringQuote ·)).length_le
    rw [minifyFrom, minifyFrom, flatMap_stretches, flatMap_stretches, List.reverse_nil, List.nil_append,
      List.nil_append, hshorten]
    generalize s.dropWhile (!isStringQuote ·) = u at hrest hclear hlength ⊢
    generalize t.dropWhile (!isStringQuote ·) = v at hrest ⊢
    cases hrest with
    | nil => rfl
    | feed h => cases (clear_cons _ _ _).1 hclear
    | @cons _ u v q h =>
      have hq : q ≠ '\r' := by
        rintro rfl
        cases (clear_cons _ _ _).1 hclear
      have hnext : r.next q (u ++ []) = r.next q (v ++ []) := by
        have hcontains : u.contains q = v.contains q := by
          rw [Bool.eq_iff_iff, List.contains_iff_mem, List.contains_iff_mem, h.mem_iff hq]
        simp only [List.append_nil, Reading.next, hcontains]
      simp only [hnext]
      rw [ih u.length (by simp only [List.length_cons] at hlength; omega) h _ rfl]

theorem minify_eq (h : Carried behind s t) : minify s = minify t := by
  rw [minify_eq_strip, minify_eq_strip, h.minifyFrom_eq]

end Carried

end SvgComponent.Source
