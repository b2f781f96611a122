import SvgComponent.Proofs.Literals
import SvgComponent.Proofs.Printing

/-!
# Source minified line by line

The passes over code go from its end to its start. What they make of the code in front of a character that
is no blank depends on that character, but not on what stands behind it. So source can be cut behind such a
character, and lines that end with a tag or a container are minified as if each stood alone.

* `Cuts`, `minifyCode_append`: code cut behind a character.
* `minifyFrom_append`, `minifyFrom_break`: the same in source with literals, for text that is read as code
  where it is cut.
* `endsInCode`, `minify_joinLines`: lines, one after the other with nothing between them.
-/

namespace SvgComponent.Source

open Text

/-! ## Code cut behind a character -/

/-- If `c` is kept, what becomes of the code in front of it does not depend on the code behind it. -/
def Cuts (c : Char) (p : List Char → List Char) : Prop :=
  ∀ a, ∃ w, ∀ b t, p (c :: b) = c :: t → p (a ++ c :: b) = w ++ c :: t

/-- A fold that never looks behind `c`; the state may hold more than the text. -/
theorem exists_foldr_append {σ ι : Type} {push : Char → σ → σ} {c : Char} (state : ι → List Char → σ)
    (h : ∀ d i w, ∃ j v, ∀ t, push d (state i (w ++ c :: t)) = state j (v ++ c :: t)) (i : ι)
    (a : List Char) : ∃ j v, ∀ t, a.foldr push (state i (c :: t)) = state j (v ++ c :: t) := by
  induction a with
  | nil => exact ⟨i, [], fun t => rfl⟩
  | cons d a ih =>
    obtain ⟨j, w, hw⟩ := ih
    obtain ⟨k, v, hv⟩ := h d j w
    exact ⟨k, v, fun t => by rw [List.foldr_cons, hw, hv]⟩

section
variable {c : Char}

theorem Cuts.of_foldr {push : Char → List Char → List Char}
    (h : ∀ d w, ∃ v, ∀ t, push d (w ++ c :: t) = v ++ c :: t) : Cuts c (List.foldr push []) := by
  intro a
  obtain ⟨-, w, hw⟩ := exists_foldr_append (fun (_ : Unit) s => s)
    (fun d _ w => ⟨(), h d w⟩) () a
  refine ⟨w, fun b t hb => ?_⟩
  rw [List.foldr_append, hb, hw]

theorem Cuts.of_foldr_state {push : Char → Bool × List Char → Bool × List Char}
    (h : ∀ d i w, ∃ j v, ∀ t, push d (i, w ++ c :: t) = (j, v ++ c :: t))
    (hkeep : ∀ b t, (List.foldr push (false, []) (c :: b)).2 = c :: t →
      (List.foldr push (false, []) (c :: b)).1 = false) :
    Cuts c fun s => (List.foldr push (false, []) s).2 := by
  intro a
  obtain ⟨j, w, hw⟩ := exists_foldr_append Prod.mk h false a
  refine ⟨w, fun b t hb => ?_⟩
  have hstate : List.foldr push (false, []) (c :: b) = (false, c :: t) :=
    Prod.ext (hkeep b t hb) hb
  simp only [List.foldr_append, hstate, hw]

/-- One pass after another, if the character is kept by both whenever it is kept at all. -/
theorem Cuts.comp {p q : List Char → List Char} (hq : Cuts c q) (hp : Cuts c p)
    (hkeep : ∀ b t, q (p (c :: b)) = c :: t → ∃ u, p (c :: b) = c :: u) :
    Cuts c fun s => q (p s) := by
  intro a
  obtain ⟨w, hw⟩ := hp a
  obtain ⟨v, hv⟩ := hq w
  refine ⟨v, fun b t (hb : q (p (c :: b)) = c :: t) => ?_⟩
  obtain ⟨u, hu⟩ := hkeep b t hb
  rw [hu] at hb
  show q (p (a ++ c :: b)) = v ++ c :: t
  rw [hw b u hu, hv u t hb]

theorem head?_append_cons (w t : List Char) : (w ++ c :: t).head? = (w ++ [c]).head? := by
  cases w <;> rfl

variable (hb : isBlank c = false)
include hb

theorem cuts_joinAfterTag : Cuts c joinAfterTag := by
  refine Cuts.of_foldr fun d w => ?_
  simp only [startsWithBreak_append hb, dropWhile_append_barrier hb]
  split
  · exact ⟨d :: w.dropWhile isBlank, fun t => rfl⟩
  · exact ⟨d :: w, fun t => rfl⟩

theorem cuts_joinBeforeTag : Cuts c joinBeforeTag := by
  refine Cuts.of_foldr_state (fun d i w => ?_) fun b t _ => ?_
  · simp only [joinBeforeTag.push, dropWhile_append_barrier (isInline_of_not_blank hb),
      head?_append_cons (w.dropWhile isInline)]
    split
    · exact ⟨true, w, fun t => rfl⟩
    split
    · exact ⟨true, w.dropWhile isInline, fun t => rfl⟩
    · exact ⟨false, d :: w, fun t => rfl⟩
  · exact congrArg Prod.fst (beforeTagState_of_not_blank hb b)

omit hb in
theorem cuts_collapse : Cuts c collapse := by
  refine Cuts.of_foldr fun d w => ?_
  simp only [head?_append_cons w]
  split
  · split
    · exact ⟨w, fun t => rfl⟩
    · exact ⟨' ' :: w, fun t => rfl⟩
  · exact ⟨d :: w, fun t => rfl⟩

theorem cuts_joinTags : Cuts c joinTags := by
  refine Cuts.of_foldr fun d w => ?_
  simp only [dropWhile_append_barrier hb, head?_append_cons (w.dropWhile isBlank)]
  split
  · exact ⟨d :: w.dropWhile isBlank, fun t => rfl⟩
  · exact ⟨d :: w, fun t => rfl⟩

/-- A semicolon that is kept was not needed by a brace behind it. -/
theorem cuts_dropSemicolons : Cuts c dropSemicolons := by
  refine Cuts.of_foldr_state (fun d i w => ?_) fun b t h => ?_
  · simp only [dropSemicolons.push, dropWhile_append_barrier hb,
      head?_append_cons (w.dropWhile isBlank)]
    split
    · exact ⟨i, d :: w, fun t => rfl⟩
    split
    · exact ⟨true, w.dropWhile isBlank, fun t => rfl⟩
    · exact ⟨false, d :: w, fun t => rfl⟩
  · rw [← semicolonState] at h ⊢
    by_cases hc : c = ';'
    · subst hc
      rw [semicolonState_semicolon] at h ⊢
      split at h
      · rename_i hbrace
        rw [show (dropSemicolons b).dropWhile isBlank = ';' :: t from h] at hbrace
        cases hbrace.2
      · rw [if_neg ‹_›]
    · rw [semicolonState_of_ne hb hc]

theorem exists_tightenPunctuation_cons (s : List Char) : ∃ t, tightenPunctuation (c :: s) = c :: t := by
  rw [tightenPunctuation_cons, hb, Bool.false_and]
  split
  · exact ⟨_, rfl⟩
  · exact ⟨_, rfl⟩

theorem cuts_tightenPunctuation : Cuts c tightenPunctuation := by
  refine Cuts.of_foldr fun d w => ?_
  simp only [dropWhile_append_barrier hb, head?_append_cons w]
  split
  · exact ⟨d :: w.dropWhile isBlank, fun t => rfl⟩
  split
  · exact ⟨w, fun t => rfl⟩
  · exact ⟨d :: w, fun t => rfl⟩

theorem cuts_joined : Cuts c joined := by
  have hafter : ∀ b, ∃ u, joinAfterTag (c :: b) = c :: u :=
    fun b => List.head?_eq_some_iff.1 (head?_joinAfterTag _)
  have hbefore : ∀ b, ∃ u, joinBeforeTag (joinAfterTag (c :: b)) = c :: u := by
    intro b
    obtain ⟨u, hu⟩ := hafter b
    exact ⟨_, by rw [hu, joinBeforeTag_of_not_blank hb]⟩
  have hcollapse : ∀ b, ∃ u, collapse (joinBeforeTag (joinAfterTag (c :: b))) = c :: u := by
    intro b
    obtain ⟨u, hu⟩ := hbefore b
    exact ⟨_, by rw [hu, collapse_cons_of_not_blank hb]⟩
  exact (cuts_joinTags hb).comp (cuts_collapse.comp
    ((cuts_joinBeforeTag hb).comp (cuts_joinAfterTag hb) fun b _ _ => hafter b)
    fun b _ _ => hbefore b) fun b _ _ => hcollapse b

theorem cuts_minifyCode : Cuts c minifyCode := by
  have hjoined : ∀ b, ∃ u, joined (c :: b) = c :: u :=
    fun b => List.head?_eq_some_iff.1 (head?_joined hb b)
  refine Cuts.comp (p := fun s => dropSemicolons (joined s)) (cuts_tightenPunctuation hb)
    ((cuts_dropSemicolons hb).comp (cuts_joined hb) fun b _ _ => hjoined b) fun b t h => ?_
  -- only a semicolon can be dropped, and then a brace is first
  obtain ⟨u, hu⟩ := hjoined b
  rw [hu] at h ⊢
  by_cases hc : c = ';'
  · subst hc
    rcases dropSemicolons_semicolon u with hs | ⟨hbrace, hs⟩
    · exact ⟨_, hs⟩
    · have hhead : ((dropSemicolons u).dropWhile isBlank).head? = some '\x7d' := by
        rw [stripStart_dropSemicolons]
        obtain ⟨v, hv⟩ := List.head?_eq_some_iff.1 hbrace
        rw [hv, dropSemicolons_of_ne (by decide)]
        rfl
      obtain ⟨v, hv⟩ := List.head?_eq_some_iff.1 hhead
      obtain ⟨x, hx⟩ := exists_tightenPunctuation_cons (c := '\x7d') (by decide) v
      rw [hs, hv, hx] at h
      cases h
  · exact ⟨_, dropSemicolons_of_ne hc u⟩

/-- **Code can be cut behind a character that is no blank**: what is in front of it is minified as if the
code ended there. -/
theorem minifyCode_append {b t : List Char} (h : minifyCode (c :: b) = c :: t) (a : List Char) :
    minifyCode (a ++ c :: b) = minifyCode (a ++ [c]) ++ t := by
  have hone : minifyCode [c] = [c] := by
    by_cases hc : c = ';'
    · rw [hc]
      rfl
    · rcases minifyCode_keep hb hc [] with h | ⟨-, h⟩ <;> exact h
  obtain ⟨w, hw⟩ := cuts_minifyCode hb a
  rw [hw b t h, hw [] [] hone, List.append_assoc]
  rfl

theorem exists_head_minifyCode (s : List Char) : ∃ d t, minifyCode (c :: s) = d :: t := by
  by_cases hc : c = ';'
  · subst hc
    rcases minifyCode_semicolon s with h | ⟨hbrace, h⟩
    · exact ⟨_, _, h⟩
    · obtain ⟨u, hu⟩ := List.head?_eq_some_iff.1 hbrace
      rw [h, hu, minifyCode_punctuation (by decide) (by decide)]
      exact ⟨_, _, rfl⟩
  · rcases minifyCode_keep hb hc s with h | ⟨-, h⟩ <;> exact ⟨_, _, h⟩

end

/-! ## Text that is read as code where it ends -/

/-- A text that nothing follows ends as code: a mark opens a literal only if it is closed. -/
theorem after_nil {r : Reading} {s : List Char}
    (h : ∀ mark, r = .literal mark → isStringQuote mark = true ∧ mark ∈ s) : r.after s [] = .code := by
  induction s generalizing r with
  | nil =>
    cases r with
    | code => rfl
    | literal mark => cases (h mark rfl).2
  | cons c s ih =>
    rw [Reading.after, List.append_nil]
    refine ih fun mark hmark => ?_
    cases hq : isStringQuote c with
    | false =>
      rw [next_of_not_quote hq] at hmark
      obtain ⟨hquote, hmem⟩ := h mark hmark
      refine ⟨hquote, (List.mem_cons.1 hmem).resolve_left ?_⟩
      rintro rfl
      rw [hq] at hquote
      cases hquote
    | true =>
      cases r with
      | code =>
        by_cases hs : c ∈ s
        · rw [next_code hq hs] at hmark
          cases hmark
          exact ⟨hq, hs⟩
        · simp [Reading.next, hq, hs] at hmark
      | literal m =>
        by_cases hc : c = m
        · rw [hc, next_literal_mark (hc ▸ hq)] at hmark
          cases hmark
        · rw [next_literal hc, Reading.literal.injEq] at hmark
          subst hmark
          obtain ⟨hquote, hmem⟩ := h m rfl
          exact ⟨hquote, (List.mem_cons.1 hmem).resolve_left (Ne.symm hc)⟩

/-- What follows a text that ends as code opens no literal in it. -/
theorem next_of_after {r : Reading} {c : Char} {s rest : List Char}
    (h : (r.next c (s ++ rest)).after s rest = .code) : r.next c (s ++ rest) = r.next c s := by
  cases hq : isStringQuote c with
  | false => rw [next_of_not_quote hq, next_of_not_quote hq]
  | true =>
    cases r with
    | literal mark => rfl
    | code =>
      by_cases hs : c ∈ s
      · rw [next_code hq (List.mem_append_left _ hs), next_code hq hs]
      · by_cases hrest : c ∈ rest
        · rw [next_code hq (List.mem_append_right _ hrest), after_literal hs] at h
          cases h
        · simp [Reading.next, hq, hs, hrest]

theorem stretches_of_after {r : Reading} {s rest : List Char} (h : r.after s rest = .code)
    (start : List Char) : r.stretches start rest s = r.stretches start [] s := by
  induction s generalizing r start with
  | nil => rfl
  | cons c s ih =>
    rw [Reading.after] at h
    have hnext := next_of_after h
    rw [Reading.stretches, Reading.stretches, List.append_nil]
    split
    · rw [ih h, hnext]
    · rename_i hc
      rw [next_of_not_quote (by simpa using hc)] at h
      exact ih h _

theorem minifyFrom_of_after {r : Reading} {s rest : List Char} (h : r.after s rest = .code) :
    minifyFrom r rest s = minifyFrom r [] s := by
  rw [minifyFrom, stretches_of_after h, minifyFrom]

/-- Text that ends as code, cut behind its last character. -/
theorem stretches_append {c : Char} (hb : isBlank c = false) (hq : isStringQuote c = false)
    {m rest t : List Char} (hm : minifyFrom .code rest (c :: m) = c :: t) {r : Reading}
    {l : List Char} (hlast : l.getLast? = some c) (h : r.after l (m ++ rest) = .code)
    (start : List Char) :
    (r.stretches start rest (l ++ m)).flatMap (fun p => p.1.shorten p.2) =
      (r.stretches start (m ++ rest) l).flatMap (fun p => p.1.shorten p.2) ++ t := by
  induction l generalizing r start with
  | nil => cases hlast
  | cons d l ih =>
    rw [Reading.after] at h
    cases l with
    | nil =>
      obtain rfl : d = c := by simpa using hlast
      rw [next_of_not_quote hq] at h
      obtain rfl : r = .code := h
      rw [minifyFrom, flatMap_stretches, List.takeWhile_cons_of_pos (by simp [hq]),
        List.dropWhile_cons_of_pos (by simp [hq])] at hm
      obtain ⟨e, u, hu⟩ := exists_head_minifyCode hb (m.takeWhile (!isStringQuote ·))
      simp only [Reading.shorten, List.reverse_nil, List.nil_append, hu, List.cons_append,
        List.cons.injEq] at hm
      obtain ⟨rfl, rfl⟩ := hm
      rw [List.singleton_append, flatMap_stretches, List.takeWhile_cons_of_pos (by simp [hq]),
        List.dropWhile_cons_of_pos (by simp [hq]), flatMap_stretches]
      simp only [Reading.shorten]
      rw [minifyCode_append hb hu]
      simp [hq]
    | cons e l =>
      rw [List.getLast?_cons_cons] at hlast
      rw [List.cons_append, Reading.stretches, Reading.stretches]
      split
      · rw [List.flatMap_cons, List.flatMap_cons, List.append_assoc, List.append_assoc,
          ih hlast h []]
      · rename_i hd
        rw [next_of_not_quote (by simpa using hd)] at h
        exact ih hlast h _

section
variable {r : Reading} {l m rest : List Char} {c : Char} (hlast : l.getLast? = some c)
  (h : r.after l (m ++ rest) = .code)
include hlast h

theorem minifyFrom_append_of_keep (hb : isBlank c = false) (hq : isStringQuote c = false)
    {t : List Char} (hm : minifyFrom .code rest (c :: m) = c :: t) :
    minifyFrom r rest (l ++ m) = minifyFrom r [] l ++ t := by
  rw [minifyFrom, stretches_append hb hq hm hlast h, ← minifyFrom, minifyFrom_of_after h]

/-- **Source can be cut between two characters that are no blanks**, where it is read as code and no
semicolon stands before a brace. -/
theorem minifyFrom_append (hb : isBlank c = false) (hm : Clear isBlank m)
    (hbrace : m.head? ≠ some '\x7d') :
    minifyFrom r rest (l ++ m) = minifyFrom r [] l ++ minifyFrom .code rest m := by
  cases hq : isStringQuote c with
  | true =>
    obtain ⟨v, rfl⟩ := List.getLast?_eq_some_iff.1 hlast
    have hstate := h
    rw [after_append] at hstate
    rw [← minifyFrom_of_after h, List.append_assoc, List.singleton_append,
      minifyFrom_append_quote hq, minifyFrom_append_quote hq]
    simp only [Reading.after, List.nil_append, List.cons_append] at hstate ⊢
    rw [hstate]
    simp
  | false =>
    refine minifyFrom_append_of_keep hlast h hb hq ?_
    by_cases hc : c = ';'
    · subst hc
      obtain ⟨t, ht, hs | ⟨hb', -⟩⟩ := minifyFrom_semicolon .code rest m
      · rw [hm.dropWhile, or_self] at ht
        rw [hs, ht]
      · rw [hm.dropWhile, or_self] at ht
        rw [ht] at hb'
        exact absurd hb' hbrace
    · rcases minifyFrom_keep .code rest hb hq hc m with hs | ⟨-, hs⟩
      · exact hs
      · rw [hs, hm.dropWhile]

end

/-- Behind a tag or a container the blanks of a line break go. -/
theorem minifyFrom_break {c : Char} (hc : c ∈ ['>', '\x7d']) (rest s : List Char) :
    minifyFrom .code rest (c :: '\n' :: s) = c :: minifyFrom .code rest (s.dropWhile isBlank) := by
  have hcode : ∀ w, minifyCode (c :: '\n' :: w) = c :: minifyCode (w.dropWhile isBlank) := by
    intro w
    simp only [List.mem_cons, List.not_mem_nil, or_false] at hc
    rcases hc with rfl | rfl
    · rw [minifyCode_tag, if_pos (.inl rfl), List.dropWhile_cons_of_pos (by decide)]
    · rw [minifyCode_punctuation (by decide) (by decide), List.dropWhile_cons_of_pos (by decide)]
  have hq : isStringQuote c = false := by
    simp only [List.mem_cons, List.not_mem_nil, or_false] at hc
    rcases hc with rfl | rfl <;> decide
  have hn : isStringQuote '\n' = false := by decide
  obtain ⟨htake, hdrop⟩ := dropBlanks_before_quote s
  rw [minifyFrom, flatMap_stretches, minifyFrom, flatMap_stretches, htake, hdrop]
  simp [hq, hn, Reading.shorten, hcode]

/-! ## Lines -/

/-- Blanks at the start of source are dropped before or after it is minified. -/
theorem stripStart_minifyFrom (rest s : List Char) :
    (minifyFrom .code rest s).dropWhile isBlank = minifyFrom .code rest (s.dropWhile isBlank) := by
  obtain ⟨htake, hdrop⟩ := dropBlanks_before_quote s
  rw [minifyFrom, flatMap_stretches, minifyFrom, flatMap_stretches, htake, hdrop]
  simp only [List.reverse_nil, List.nil_append, Reading.shorten, ← stripStart_minifyCode]
  cases hs : s.dropWhile (!isStringQuote ·) with
  | nil => simp
  | cons q t =>
    have hq : isStringQuote q = true := by
      have := List.head?_dropWhile_not (!isStringQuote ·) s
      rw [hs] at this
      simpa using this
    exact dropWhile_append_barrier (isStringQuote_facts hq).1 _ _

/-- A line is minified without its indentation. -/
theorem minify_eq_minifyFrom_dropBlanks {s : List Char} {c : Char} (hb : isBlank c = false)
    (hlast : s.getLast? = some c) : minify s = minifyFrom .code [] (s.dropWhile isBlank) := by
  rw [minify_eq_strip, strip, stripStart, stripStart_minifyFrom,
    stripEnd_of_getLast? hb (getLast?_minifyFrom .code [] hb (getLast?_dropBlanks hb hlast))]

/-- Whether every line is read as code at its end: no literal reaches over the break behind it. -/
def endsInCode : List (List Char) → Bool
  | [] => true
  | l :: ls => Reading.code.after l (Jsx.block ls) == .code && endsInCode ls

theorem after_dropBlanks (r : Reading) (s rest : List Char) :
    r.after (s.dropWhile isBlank) rest = r.after s rest := by
  induction s with
  | nil => rfl
  | cons c s ih =>
    cases hc : isBlank c with
    | true =>
      rw [List.dropWhile_cons_of_pos hc, ih, Reading.after,
        next_of_not_quote (isStringQuote_of_isBlank hc)]
    | false => rw [List.dropWhile_cons_of_neg (by simp [hc])]

/-- Whether a line ends with a tag or a container. -/
def EndsClosed (l : List Char) : Prop := ∃ c ∈ ['>', '\x7d'], l.getLast? = some c

theorem EndsClosed.exists_not_blank {l : List Char} (h : EndsClosed l) :
    ∃ c, isBlank c = false ∧ isStringQuote c = false ∧ c ∈ ['>', '\x7d'] ∧ l.getLast? = some c := by
  obtain ⟨c, hc, hlast⟩ := h
  have hfacts : isBlank c = false ∧ isStringQuote c = false := by
    simp only [List.mem_cons, List.not_mem_nil, or_false] at hc
    rcases hc with rfl | rfl <;> decide
  exact ⟨c, hfacts.1, hfacts.2, hc, hlast⟩

theorem EndsClosed.append {l : List Char} (h : EndsClosed l) (a : List Char) : EndsClosed (a ++ l) := by
  obtain ⟨c, hc, hlast⟩ := h
  exact ⟨c, hc, by rw [List.getLast?_append, hlast]; rfl⟩

theorem endsClosed_append_block {l : List Char} {ls : List (List Char)}
    (hends : ∀ m ∈ l :: ls, EndsClosed m) : EndsClosed (l ++ Jsx.block ls) := by
  induction ls generalizing l with
  | nil => simpa using hends
  | cons m ls ih => exact ((ih fun x hx => hends x (.tail _ hx)).append ['\n']).append l

theorem minifyFrom_lines {l : List Char} {ls : List (List Char)}
    (hends : ∀ m ∈ l :: ls, EndsClosed m) (hcode : endsInCode (l :: ls) = true) :
    minifyFrom .code [] ((l ++ Jsx.block ls).dropWhile isBlank) =
      minify l ++ ls.flatMap minify := by
  induction ls generalizing l with
  | nil =>
    obtain ⟨c, hb, -, -, hlast⟩ := (hends l (by simp)).exists_not_blank
    rw [Jsx.block_nil, List.append_nil, minify_eq_minifyFrom_dropBlanks hb hlast]
    simp
  | cons m ls ih =>
    obtain ⟨c, hb, hq, hc, hlast⟩ := (hends l (by simp)).exists_not_blank
    rw [endsInCode, Bool.and_eq_true, beq_iff_eq] at hcode
    have hblock : Jsx.block (m :: ls) = '\n' :: (m ++ Jsx.block ls) := rfl
    have hstart : (l ++ Jsx.block (m :: ls)).dropWhile isBlank =
        l.dropWhile isBlank ++ Jsx.block (m :: ls) := by
      obtain ⟨a, rfl⟩ := List.getLast?_eq_some_iff.1 hlast
      rw [List.append_assoc, List.singleton_append, dropWhile_append_barrier hb,
        dropWhile_append_barrier hb, List.append_assoc]
      rfl
    have hafter : Reading.code.after (l.dropWhile isBlank) (Jsx.block (m :: ls) ++ []) = .code := by
      rw [after_dropBlanks, List.append_nil, hcode.1]
    have hcut := minifyFrom_append_of_keep (getLast?_dropBlanks hb hlast) hafter hb hq
      (by rw [hblock]; exact minifyFrom_break hc [] (m ++ Jsx.block ls))
    rw [hstart, hcut, ← minify_eq_minifyFrom_dropBlanks hb hlast,
      ih (fun x hx => hends x (.tail _ hx)) hcode.2, List.flatMap_cons]

/-- **Lines that end with a tag or a container are minified one by one**, and nothing stands between
them, as long as no literal reaches over the end of a line. -/
theorem minify_joinLines {ls : List (List Char)} (hends : ∀ l ∈ ls, EndsClosed l)
    (hcode : endsInCode ls = true) : minify (joinLines ls) = ls.flatMap minify := by
  cases ls with
  | nil =>
    rw [minify_eq_strip]
    rfl
  | cons l ls =>
    obtain ⟨c, hb, -, -, hlast⟩ := (endsClosed_append_block hends).exists_not_blank
    rw [Jsx.joinLines_cons, minify_eq_minifyFrom_dropBlanks hb hlast, minifyFrom_lines hends hcode,
      List.flatMap_cons]

end SvgComponent.Source
