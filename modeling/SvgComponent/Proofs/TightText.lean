import Mathlib.Data.List.Chain
import SvgComponent.Proofs.LineByLine
import SvgComponent.Proofs.WrittenText

/-!
# Written text minified on its own

Of all the passes over code only one finds something to do in written text: blanks next to punctuation go,
unless they stand in a literal. The other passes look for characters side by side that written text does
not have (`Fits`).

* `tightened`: text without these blanks.
* `tightened_eq_self_iff`: when it is the text itself.
* `minifyFrom_of_fits`, `minifyFrom_escapeText`: what becomes of written text.
-/

namespace SvgComponent.Source

open Text

/-! ## Text without blanks next to punctuation -/

/-- What a segment holds. -/
def Segment.content : Segment → List Char
  | .code content => content
  | .literal content => content

/-- Code without the blanks that stand right behind or right in front of punctuation; `before` is the
character in front of the code. -/
def dropBeside (before : Option Char) : List Char → List Char
  | [] => []
  | c :: s =>
    if isBlank c && (before.any isPunctuation || s.head?.any isPunctuation) then dropBeside (some c) s
    else c :: dropBeside (some c) s

/-- A segment without the blanks next to punctuation; a literal stays as it is. -/
def Segment.tighten : Segment → List Char
  | .code content => dropBeside none content
  | .literal content => content

/-- A text without the blanks next to punctuation outside of its literals. -/
def tightened (s : List Char) : List Char := (segments s).flatMap Segment.tighten

/-- Characters that can stand side by side in code that has no blanks next to punctuation. -/
def Tight (c d : Char) : Prop :=
  ¬(isBlank c = true ∧ isPunctuation d = true) ∧ ¬(isPunctuation c = true ∧ isBlank d = true)

theorem flatMap_content_segmentsFrom (code s : List Char) :
    (segmentsFrom code s).flatMap Segment.content = code.reverse ++ s := by
  fun_induction segmentsFrom code s with
  | case1 code => simp [Segment.content]
  | case2 code c s hc content ih =>
    rw [Bool.and_eq_true] at hc
    have hmem : c ∈ s := by simpa using hc.2
    have hsplit : s = content ++ c :: s.drop (content.length + 1) := split_at_mark hmem
    rw [List.flatMap_cons, List.flatMap_cons, ih]
    nth_rewrite 2 [hsplit]
    simp [Segment.content]
  | case3 code c s hc ih =>
    rw [ih]
    simp

theorem flatMap_content_segments (s : List Char) : (segments s).flatMap Segment.content = s := by
  rw [segments, flatMap_content_segmentsFrom]
  rfl

theorem infix_of_mem_segments {s : List Char} {x : Segment} (h : x ∈ segments s) :
    x.content <:+: s := by
  obtain ⟨as, bs, hsplit⟩ := List.append_of_mem h
  have hall := flatMap_content_segments s
  rw [hsplit, List.flatMap_append, List.flatMap_cons] at hall
  exact ⟨_, _, by rw [← hall, List.append_assoc]⟩

theorem dropBeside_sublist (before : Option Char) (s : List Char) : (dropBeside before s).Sublist s := by
  induction s generalizing before with
  | nil => exact .slnil
  | cons c s ih =>
    rw [dropBeside]
    split
    · exact (ih (some c)).cons c
    · exact (ih (some c)).cons_cons c

/-- **Code loses nothing** exactly if it has no blank next to punctuation. -/
theorem dropBeside_eq_self_iff (before : Option Char) (s : List Char) :
    dropBeside before s = s ↔
      (∀ c ∈ s.head?, ¬(before.any isPunctuation = true ∧ isBlank c = true)) ∧ s.IsChain Tight := by
  induction s generalizing before with
  | nil => simp [dropBeside]
  | cons c s ih =>
    rw [dropBeside, List.isChain_cons]
    simp only [List.head?_cons, Option.mem_some_iff, forall_eq']
    split
    · rename_i hdrop
      rw [Bool.and_eq_true, Bool.or_eq_true] at hdrop
      refine iff_of_false (fun h => ?_) fun ⟨hbefore, htight, _⟩ => ?_
      · have := (dropBeside_sublist (some c) s).length_le
        rw [h, List.length_cons] at this
        omega
      · rcases hdrop.2 with hp | hp
        · exact hbefore ⟨hp, hdrop.1⟩
        · obtain ⟨d, hd, hp⟩ := (Option.any_eq_true _ _).1 hp
          exact (htight d hd).1 ⟨hdrop.1, hp⟩
    · rename_i hkeep
      rw [Bool.and_eq_true, Bool.or_eq_true, not_and, not_or] at hkeep
      rw [List.cons.injEq, and_iff_right rfl, ih]
      constructor
      · rintro ⟨hbehind, hchain⟩
        refine ⟨fun h => (hkeep h.2).1 h.1, fun d hd => ⟨fun h => ?_, fun h => hbehind d hd h⟩, hchain⟩
        refine (hkeep h.1).2 ?_
        rw [Option.mem_def.1 hd]
        exact h.2
      · exact fun ⟨_, htight, hchain⟩ => ⟨fun d hd h => (htight d hd).2 h, hchain⟩

/-- The pass over punctuation drops these blanks, if no two blanks stand side by side. -/
theorem dropBeside_eq_tightenPunctuation (before : Option Char) {s : List Char}
    (h : s.IsChain fun c d => ¬(isBlank c = true ∧ isBlank d = true)) :
    dropBeside before s =
      tightenPunctuation (if before.any isPunctuation then s.dropWhile isBlank else s) := by
  induction s generalizing before with
  | nil => simp [dropBeside, tightenPunctuation]
  | cons c s ih =>
    obtain ⟨hc, hs⟩ := List.isChain_cons.1 h
    rw [dropBeside, ih (some c) hs, Option.any_some]
    cases hb : isBlank c with
    | true =>
      have hclear : Clear isBlank s := fun d hd => Bool.eq_false_iff.2 fun hd' => hc d hd ⟨hb, hd'⟩
      have hhead : (tightenPunctuation s).head?.any isPunctuation = s.head?.any isPunctuation := by
        cases s with
        | nil => rfl
        | cons d s =>
          obtain ⟨t, ht⟩ := exists_tightenPunctuation_cons (c := d) (hclear d rfl) s
          rw [ht]
          rfl
      simp only [isPunctuation_of_isBlank hb, Bool.false_eq_true, if_false, Bool.true_and]
      rw [List.dropWhile_cons_of_pos hb, hclear.dropWhile]
      cases before.any isPunctuation with
      | true => rfl
      | false =>
        simp only [Bool.false_or, Bool.false_eq_true, if_false]
        rw [tightenPunctuation_of_blank hb, hhead]
    | false =>
      rw [List.dropWhile_cons_of_neg (by simp [hb]), ite_self, Bool.false_and, if_neg (by simp),
        tightenPunctuation_cons, hb, Bool.false_and]
      split
      · rw [stripStart_tightenPunctuation]
      · rfl

/-- Lists made of shortened parts are the whole ones only if no part was shortened. -/
theorem flatMap_eq_iff_of_sublist {α β : Type} {f g : α → List β} (h : ∀ x, (f x).Sublist (g x))
    (xs : List α) :
    (xs.flatMap f).Sublist (xs.flatMap g) ∧
      (xs.flatMap f = xs.flatMap g ↔ ∀ x ∈ xs, f x = g x) := by
  induction xs with
  | nil => simp
  | cons x xs ih =>
    obtain ⟨hsub, hiff⟩ := ih
    rw [List.flatMap_cons, List.flatMap_cons, List.forall_mem_cons, ← hiff]
    refine ⟨(h x).append hsub, fun he => ?_, fun he => by rw [he.1, he.2]⟩
    have hlength := congrArg List.length he
    rw [List.length_append, List.length_append] at hlength
    have hx := (h x).length_le
    have hxs := hsub.length_le
    exact ⟨(h x).eq_of_length (by omega), hsub.eq_of_length (by omega)⟩

/-- **A text is kept** exactly if it has no blank next to punctuation outside of its literals. -/
theorem tightened_eq_self_iff (s : List Char) :
    tightened s = s ↔ ∀ w, .code w ∈ segments s → w.IsChain Tight := by
  have hsub : ∀ x : Segment, x.tighten.Sublist x.content := by
    rintro (w | w)
    · exact dropBeside_sublist none w
    · exact List.Sublist.refl w
  rw [tightened]
  nth_rewrite 2 [← flatMap_content_segments s]
  rw [(flatMap_eq_iff_of_sublist hsub _).2]
  constructor
  · intro h w hw
    exact ((dropBeside_eq_self_iff none w).1 (h _ hw)).2
  · rintro h (w | w) hw
    · exact (dropBeside_eq_self_iff none w).2 ⟨by simp, h w hw⟩
    · rfl

/-! ## Code in which one pass has something to do -/

/-- Characters that stand side by side in written text: spaces are alone, an angle bracket is followed by a
quotation mark, and a brace closes behind one. -/
def Fits (c d : Char) : Prop := ¬(c = ' ' ∧ d = ' ') ∧ (c = '>' → d = '"') ∧ (d = '\x7d' → c = '"')

section
variable {s : List Char} (hblank : ∀ c ∈ s, c = ' ' ∨ isBlank c = false) (h : s.IsChain Fits)

include hblank

theorem clear_of_fits (hspace : ∀ d ∈ s.head?, Fits ' ' d) : Clear isBlank s :=
  fun d hd => (hblank d (List.mem_of_mem_head? hd)).resolve_left fun e => (hspace d hd).1 ⟨rfl, e⟩

include h

theorem joined_of_fits : joined s = s := by
  induction s with
  | nil => rfl
  | cons c s ih =>
    obtain ⟨hc, hs⟩ := List.isChain_cons.1 h
    have hlater : ∀ d ∈ s, d = ' ' ∨ isBlank d = false := fun d hd => hblank d (.tail _ hd)
    have hrest := ih hlater hs
    rcases hblank c (.head _) with rfl | hb
    · have hnot : ¬(' ' = '\n' ∧ (s.dropWhile isInline).head? = some '<') := fun hn => by
        cases hn.1
      rw [joined_last_blank (by decide) (clear_of_fits hlater hc) hnot, hrest]
    by_cases hangle : c = '>'
    · subst hangle
      have hnot : ¬(startsWithBreak s = true ∨ (s.dropWhile isBlank).head? = some '<') := by
        cases s with
        | nil => simp [startsWithBreak]
        | cons d s =>
          obtain rfl : d = '"' := (hc d rfl).2.1 rfl
          have hq : isBlank '"' = false := by decide
          have hi : isInline '"' = false := by decide
          simp [startsWithBreak, hq, hi]
      rw [joined_tag, if_neg hnot, hrest]
    · rw [joined_of_ne hb hangle, hrest]

/-- A brace stands neither behind a semicolon nor behind the space that follows one. -/
theorem dropSemicolons_of_fits : dropSemicolons s = s := by
  induction s with
  | nil => rfl
  | cons c s ih =>
    obtain ⟨hc, hs⟩ := List.isChain_cons.1 h
    have hlater : ∀ d ∈ s, d = ' ' ∨ isBlank d = false := fun d hd => hblank d (.tail _ hd)
    have hrest := ih hlater hs
    by_cases hsemicolon : c = ';'
    · subst hsemicolon
      rcases dropSemicolons_semicolon s with hkeep | ⟨hbrace, -⟩
      · rw [hkeep, hrest]
      · cases s with
        | nil => cases hbrace
        | cons d s =>
          rcases hlater d (.head _) with rfl | hd
          · obtain ⟨hspace, -⟩ := List.isChain_cons.1 hs
            have hclear := clear_of_fits (fun e he => hlater e (.tail _ he)) hspace
            rw [List.dropWhile_cons_of_pos (by decide), hclear.dropWhile] at hbrace
            cases (hspace _ hbrace).2.2 rfl
          · rw [List.dropWhile_cons_of_neg (by simp [hd])] at hbrace
            cases (hc _ hbrace).2.2 rfl
    · rw [dropSemicolons_of_ne hsemicolon, hrest]

/-- **Only blanks next to punctuation go** from such code. -/
theorem minifyCode_of_fits : minifyCode s = dropBeside none s := by
  have hsingle : s.IsChain fun c d => ¬(isBlank c = true ∧ isBlank d = true) := by
    refine h.imp_of_mem_imp fun c d hc hd hfits hboth => hfits.1 ⟨?_, ?_⟩
    · exact (hblank c hc).resolve_right (by simp [hboth.1])
    · exact (hblank d hd).resolve_right (by simp [hboth.2])
  rw [minifyCode_eq, joined_of_fits hblank h, dropSemicolons_of_fits hblank h,
    dropBeside_eq_tightenPunctuation none hsingle]
  rfl

theorem collapse_of_fits : collapse s = s := by
  apply collapse_eq_self
  · intro c hc hb
    exact (hblank c hc).resolve_right (by simp [hb])
  · intro hpair
    have hspaces := List.IsChain.infix h hpair
    exact (List.isChain_pair.1 hspaces).1 ⟨rfl, rfl⟩

end

/-- In such text nothing but the blanks next to punctuation goes. -/
theorem minifyFrom_of_fits {s : List Char} (hblank : ∀ c ∈ s, c = ' ' ∨ isBlank c = false)
    (h : s.IsChain Fits) : minifyFrom .code [] s = tightened s := by
  have hsegments := flatMap_segmentsFrom [] s
  rw [← minifyFrom, ← segments] at hsegments
  rw [← hsegments, tightened]
  refine List.flatMap_congr fun x hx => ?_
  have hinside := infix_of_mem_segments hx
  have hmem : ∀ c ∈ x.content, c = ' ' ∨ isBlank c = false :=
    fun c hc => hblank c (hinside.subset hc)
  have hfits : x.content.IsChain Fits := h.infix hinside
  cases x with
  | code w => exact minifyCode_of_fits hmem hfits
  | literal w => exact collapse_of_fits hmem hfits

end SvgComponent.Source

namespace SvgComponent.Jsx

open Text Markup Source

/-! ## Written text -/

theorem isChain_spaced (s : List Char) : (spaced s).IsChain fun c d => ¬(c = ' ' ∧ d = ' ') := by
  induction s with
  | nil => exact .nil
  | cons c s ih =>
    cases hc : isBlank c with
    | true =>
      rw [spaced_of_blank hc]
      exact ih
    | false =>
      rw [spaced_of_not_blank hc, List.isChain_cons]
      refine ⟨fun d _ hd => ?_, ?_⟩
      · rw [hd.1] at hc
        cases hc
      split
      · rw [List.isChain_cons]
        refine ⟨fun d hd hspace => ?_, ih⟩
        have hblank := clear_spaced s d hd
        rw [hspace.2] at hblank
        cases hblank
      · exact ih

theorem isChain_containSpecial {s : List Char} (h : s.IsChain fun c d => ¬(c = ' ' ∧ d = ' ')) :
    (containSpecial s).IsChain Fits := by
  induction s with
  | nil => exact .nil
  | cons c s ih =>
    obtain ⟨hc, hs⟩ := List.isChain_cons.1 h
    have hbrace : ∀ d ∈ (containSpecial s).head?, d ≠ '\x7d' := by
      rintro d hd rfl
      obtain ⟨e, -, he | ⟨rfl, he⟩⟩ := head?_containSpecial hd
      · cases he
      · cases he
    rw [containSpecial_cons]
    cases hspecial : isSpecial c with
    | true =>
      simp only [if_true, container, List.cons_append, List.nil_append, List.isChain_cons_cons]
      refine ⟨?_, ?_, ?_, ?_, ?_⟩
      · simp [Fits]
      · simp [Fits]
      · simp [Fits]
      · simp [Fits]
      · rw [List.isChain_cons]
        exact ⟨fun d hd => ⟨by simp, by simp, fun e => absurd e (hbrace d hd)⟩, ih hs⟩
    | false =>
      simp only [Bool.false_eq_true, if_false, List.singleton_append, List.isChain_cons]
      refine ⟨fun d hd => ⟨fun hspace => ?_, fun e => ?_, fun e => absurd e (hbrace d hd)⟩, ih hs⟩
      · obtain ⟨e, he, hbr | ⟨rfl, -⟩⟩ := head?_containSpecial hd
        · rw [hspace.2] at hbr
          cases hbr
        · exact hc _ he hspace
      · rw [e] at hspecial
        cases hspecial

/-- **What becomes of written text**: blanks next to punctuation go, and nothing else. -/
theorem minifyFrom_escapeText (s : List Char) :
    minifyFrom .code [] (escapeText s) = tightened (escapeText s) :=
  minifyFrom_of_fits (fun _ => mem_escapeText) (isChain_containSpecial (isChain_spaced s))

end SvgComponent.Jsx
