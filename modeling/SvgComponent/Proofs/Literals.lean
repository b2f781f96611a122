import SvgComponent.Proofs.SteadyCode

/-!
# Source read as code and literals

Whether a character of source is code or in a literal depends on the quotation marks before it and, where
a mark could open a literal, on whether the same mark stands anywhere behind it. Here source is read
character by character with that as a state, so that minifying can be followed through any text.

* `Reading`, `Reading.next`, `Reading.after`: the state, over one character and over a text.
* `Reading.stretches`: text cut behind each quotation mark, each part with the state it is in.
* `minifyFrom_eq_collapse_iff`: when only runs of blanks are replaced.
* `minify_eq_strip`: minified source is its stretches, shortened one by one.
* `minifyFrom_quote`, `minifyFrom_keep`, `minifyFrom_semicolon`, `minifyFrom_blank`: what becomes of the
  first character of any text, in either state.
-/

namespace SvgComponent.Source

open Text

/-- Whether source is being read as code, or as a literal that a mark has opened. -/
inductive Reading where
  | code
  | literal (mark : Char)
  deriving DecidableEq, Repr

namespace Reading

/-- The state behind `c`, with `s` behind it. -/
def next (r : Reading) (c : Char) (s : List Char) : Reading :=
  if isStringQuote c then
    match r with
    | code => if s.contains c then literal c else code
    | literal mark => if c = mark then code else literal mark
  else r

/-- The state behind a text, with `rest` behind it. -/
def after (r : Reading) : List Char → List Char → Reading
  | [], _ => r
  | c :: s, rest => (r.next c (s ++ rest)).after s rest

/-- What becomes of text without quotation marks. -/
def shorten : Reading → List Char → List Char
  | code, s => minifyCode s
  | literal _, s => collapse s

/-- A text, in front of which `start` in reverse order has no quotation marks, cut behind each of its
marks; `rest` is what follows it. -/
def stretches (r : Reading) (start rest : List Char) : List Char → List (Reading × List Char)
  | [] => [(r, start.reverse)]
  | c :: s =>
    if isStringQuote c then
      (r, start.reverse ++ [c]) :: stretches (r.next c (s ++ rest)) [] rest s
    else stretches r (c :: start) rest s

end Reading

/-- A text with its stretches shortened; `rest` is what follows it. -/
def minifyFrom (r : Reading) (rest s : List Char) : List Char :=
  (r.stretches [] rest s).flatMap fun p => p.1.shorten p.2

/-! ## The state -/

theorem next_of_not_quote {c : Char} (h : isStringQuote c = false) (r : Reading) (s : List Char) :
    r.next c s = r := by
  unfold Reading.next
  rw [if_neg (by simp [h])]

theorem after_append (r : Reading) (a b rest : List Char) :
    r.after (a ++ b) rest = (r.after a (b ++ rest)).after b rest := by
  induction a generalizing r with
  | nil => rfl
  | cons c a ih => rw [List.cons_append, Reading.after, ih, Reading.after, List.append_assoc]

/-- Without quotation marks the state stays. -/
theorem after_of_not_quote {a : List Char} (h : ∀ c ∈ a, isStringQuote c = false) (r : Reading)
    (rest : List Char) : r.after a rest = r := by
  induction a with
  | nil => rfl
  | cons c a ih =>
    rw [Reading.after, next_of_not_quote (h c (by simp)), ih fun d hd => h d (by simp [hd])]

theorem next_literal {mark c : Char} (h : c ≠ mark) (s : List Char) :
    (Reading.literal mark).next c s = .literal mark := by
  simp only [Reading.next, h, if_false, ite_self]

theorem next_literal_mark {mark : Char} (h : isStringQuote mark = true) (s : List Char) :
    (Reading.literal mark).next mark s = .code := by
  simp only [Reading.next, h, if_true]

theorem next_code {c : Char} (h : isStringQuote c = true) {s : List Char} (hs : c ∈ s) :
    Reading.code.next c s = .literal c := by
  have hcontains : s.contains c = true := by simpa using hs
  simp only [Reading.next, h, hcontains, if_true]

/-- A literal goes on as long as its mark does not come. -/
theorem after_literal {mark : Char} {s : List Char} (h : mark ∉ s) (rest : List Char) :
    (Reading.literal mark).after s rest = .literal mark := by
  induction s with
  | nil => rfl
  | cons c s ih =>
    simp only [List.mem_cons, not_or] at h
    rw [Reading.after, next_literal (Ne.symm h.1), ih h.2]

/-- A literal that is closed leads back to code. -/
theorem after_closed {q : Char} {v : List Char} (hq : isStringQuote q = true) (hv : q ∉ v)
    (s : List Char) : Reading.code.after (q :: (v ++ [q])) s = .code := by
  rw [Reading.after, next_code hq (by simp), after_append, after_literal hv, Reading.after,
    next_literal_mark hq, Reading.after]

/-! ## Stretches -/

theorem shorten_append_quote {q : Char} (hq : isStringQuote q = true) (r : Reading)
    (a b : List Char) : r.shorten (a ++ q :: b) = r.shorten a ++ q :: r.shorten b := by
  cases r with
  | code => exact minifyCode_append_quote hq a b
  | literal mark => exact collapse_append_quote hq a b

@[simp] theorem shorten_nil (r : Reading) : r.shorten [] = [] := by cases r <;> rfl

section
variable (r : Reading) (start rest : List Char)

/-- The stretches of a text, from its first quotation mark on. -/
theorem flatMap_stretches (s : List Char) :
    (r.stretches start rest s).flatMap (fun p => p.1.shorten p.2) =
      r.shorten (start.reverse ++ s.takeWhile (!isStringQuote ·)) ++
        match s.dropWhile (!isStringQuote ·) with
        | [] => []
        | q :: t => q :: minifyFrom (r.next q (t ++ rest)) rest t := by
  induction s generalizing start with
  | nil => simp [Reading.stretches]
  | cons c s ih =>
    cases hc : isStringQuote c with
    | true =>
      rw [Reading.stretches, if_pos hc, List.flatMap_cons, shorten_append_quote hc]
      simp [hc, minifyFrom]
    | false =>
      rw [Reading.stretches, if_neg (by simp [hc]), ih]
      simp [hc]

/-- **A text can be cut at a quotation mark.** -/
theorem stretches_append_quote {q : Char} (hq : isStringQuote q = true) (v s : List Char) :
    (r.stretches start rest (v ++ q :: s)).flatMap (fun p => p.1.shorten p.2) =
      (r.stretches start (q :: s ++ rest) v).flatMap (fun p => p.1.shorten p.2) ++
        q :: minifyFrom ((r.after v (q :: s ++ rest)).next q (s ++ rest)) rest s := by
  induction v generalizing r start with
  | nil =>
    rw [List.nil_append, Reading.stretches.eq_2, if_pos hq, List.flatMap_cons,
      shorten_append_quote hq]
    simp [Reading.stretches, Reading.after, minifyFrom]
  | cons c v ih =>
    rw [List.cons_append, Reading.stretches, Reading.stretches, Reading.after]
    split
    · rw [List.flatMap_cons, List.flatMap_cons, ih]
      simp
    · rename_i hc
      rw [ih, next_of_not_quote (c := c) (by simpa using hc)]

theorem flatMap_snd_stretches (s : List Char) :
    (r.stretches start rest s).flatMap Prod.snd = start.reverse ++ s := by
  induction s generalizing r start with
  | nil => simp [Reading.stretches]
  | cons c s ih =>
    rw [Reading.stretches]
    split
    · simp [ih]
    · simp [ih]

end

theorem minifyFrom_append_quote {q : Char} (hq : isStringQuote q = true) (r : Reading)
    (rest v s : List Char) :
    minifyFrom r rest (v ++ q :: s) = minifyFrom r (q :: s ++ rest) v ++
      q :: minifyFrom ((r.after v (q :: s ++ rest)).next q (s ++ rest)) rest s :=
  stretches_append_quote r [] rest hq v s

theorem mem_collapse {c : Char} {s : List Char} (h : c ∈ collapse s) : c = ' ' ∨ c ∈ s := by
  induction s with
  | nil => cases h
  | cons d s ih =>
    have hs : c ∈ collapse s → c = ' ' ∨ c ∈ d :: s := fun hm => (ih hm).imp id (.tail _)
    rw [collapse_cons] at h
    split at h
    · split at h
      · exact hs h
      · exact (List.mem_cons.1 h).elim .inl hs
    · exact (List.mem_cons.1 h).elim (fun e => .inr (e ▸ .head _)) hs

theorem mem_shorten {c : Char} {r : Reading} {s : List Char} (h : c ∈ r.shorten s) :
    c = ' ' ∨ c ∈ s := by
  cases r with
  | code => exact (mem_minifyCode h).imp id And.right
  | literal mark => exact mem_collapse h

/-- Minifying adds no characters but spaces. -/
theorem mem_minifyFrom {c : Char} {r : Reading} {rest s : List Char} (h : c ∈ minifyFrom r rest s) :
    c = ' ' ∨ c ∈ s := by
  obtain ⟨p, hp, hc⟩ := List.mem_flatMap.1 h
  refine (mem_shorten hc).imp id fun hm => ?_
  have hflat := flatMap_snd_stretches r [] rest s
  rw [List.reverse_nil, List.nil_append] at hflat
  rw [← hflat]
  exact List.mem_flatMap.2 ⟨p, hp, hm⟩

/-! ## Literals that hold no code -/

theorem not_mem_stretches_literal {mark : Char} {s : List Char} (h : mark ∉ s)
    (start rest w : List Char) : (.code, w) ∉ (Reading.literal mark).stretches start rest s := by
  induction s generalizing start with
  | nil => simp [Reading.stretches]
  | cons c s ih =>
    simp only [List.mem_cons, not_or] at h
    rw [Reading.stretches]
    split
    · simp [next_literal (Ne.symm h.1), ih h.2]
    · exact ih h.2 _

theorem append_mark_inj {q : Char} {a b s t : List Char} (ha : q ∉ a) (hb : q ∉ b) :
    a ++ q :: s = b ++ q :: t ↔ a = b ∧ s = t := by
  induction a generalizing b with
  | nil => cases b <;> simp_all
  | cons c a ih =>
    simp only [List.mem_cons, not_or] at ha
    cases b with
    | nil => simp [Ne.symm ha.1]
    | cons d b =>
      simp only [List.mem_cons, not_or] at hb
      simp only [List.cons_append, List.cons.injEq, ih ha.2 hb.2, and_assoc]

/-- **Only runs of blanks are replaced in a text** if and only if code minifies so in each stretch of it
that is read as code. -/
theorem stretches_eq_collapse_iff (r : Reading) (rest : List Char) {start : List Char}
    (hstart : ∀ c ∈ start, isStringQuote c = false) (s : List Char) :
    (r.stretches start rest s).flatMap (fun p => p.1.shorten p.2) = collapse (start.reverse ++ s) ↔
      ∀ w, (.code, w) ∈ r.stretches start rest s → minifyCode w = collapse w := by
  -- one stretch alone
  have hone : ∀ (r : Reading) (w : List Char),
      r.shorten w = collapse w ↔ (r = .code → minifyCode w = collapse w) := by
    intro r w
    cases r <;> simp [Reading.shorten]
  induction s generalizing r start with
  | nil =>
    simp only [Reading.stretches, List.flatMap_cons, List.flatMap_nil, List.append_nil, hone,
      List.mem_singleton, Prod.mk.injEq]
    constructor
    · rintro h w ⟨hr, rfl⟩
      exact h hr.symm
    · intro h hr
      exact h _ ⟨hr.symm, rfl⟩
  | cons c s ih =>
    rw [Reading.stretches]
    split
    · rename_i hc
      have hmark : c ≠ ' ' := fun e => by
        rw [e] at hc
        cases hc
      have hout : c ∉ start.reverse := fun hm => by
        rw [hstart c (List.mem_reverse.1 hm)] at hc
        cases hc
      -- the mark ends the first stretch on both sides
      have hshort : c ∉ r.shorten start.reverse := fun hm => (mem_shorten hm).elim hmark hout
      have hcollapse : c ∉ collapse start.reverse := fun hm => (mem_collapse hm).elim hmark hout
      have hfirst : minifyCode (start.reverse ++ [c]) = collapse (start.reverse ++ [c]) ↔
          minifyCode start.reverse = collapse start.reverse := by
        rw [minifyCode_append_quote hc, collapse_append_quote hc]
        exact ⟨fun h => List.append_cancel_right h, fun h => by rw [h]; rfl⟩
      rw [List.flatMap_cons, shorten_append_quote hc, collapse_append_quote hc, shorten_nil,
        List.append_assoc, List.singleton_append, append_mark_inj hshort hcollapse, hone]
      have hrest := ih (r.next c (s ++ rest)) (show ∀ d ∈ [], isStringQuote d = false by simp)
      rw [List.reverse_nil, List.nil_append] at hrest
      refine (and_congr (imp_congr_right fun _ => hfirst.symm) hrest).trans ?_
      simp only [List.mem_cons, Prod.mk.injEq]
      constructor
      · rintro ⟨h, h'⟩ w (⟨hr, rfl⟩ | hw)
        · exact h hr.symm
        · exact h' w hw
      · exact fun h => ⟨fun hr => h _ (.inl ⟨hr.symm, rfl⟩), fun w hw => h w (.inr hw)⟩
    · rename_i hc
      have hstart' : ∀ d ∈ c :: start, isStringQuote d = false := by
        intro d hd
        rcases List.mem_cons.1 hd with rfl | hd
        · simpa using hc
        · exact hstart d hd
      have hpush := ih r hstart'
      rwa [List.reverse_cons, List.append_assoc, List.singleton_append] at hpush

theorem minifyFrom_eq_collapse_iff (r : Reading) (rest s : List Char) :
    minifyFrom r rest s = collapse s ↔
      ∀ w, (.code, w) ∈ r.stretches [] rest s → isSteady w = true := by
  have h := stretches_eq_collapse_iff r rest (show ∀ d ∈ [], isStringQuote d = false by simp) s
  simp only [List.reverse_nil, List.nil_append, minifyCode_eq_collapse_iff] at h
  exact h

/-- A literal is kept but for its runs of blanks. -/
theorem minifyFrom_literal {mark : Char} {s : List Char} (h : mark ∉ s) (rest : List Char) :
    minifyFrom (.literal mark) rest s = collapse s :=
  (minifyFrom_eq_collapse_iff _ _ _).2 fun w hw => absurd hw (not_mem_stretches_literal h _ _ w)

/-! ## Minified source -/

/-- A quotation mark that opens nothing is code like any other character. -/
theorem stretches_cons_quote {q : Char} (hq : isStringQuote q = true) (start rest s : List Char) :
    (Reading.code.stretches (q :: start) rest s).flatMap (fun p => p.1.shorten p.2) =
      Reading.code.shorten (start.reverse ++ [q]) ++ minifyFrom .code rest s := by
  rw [minifyFrom, flatMap_stretches, flatMap_stretches, List.reverse_cons, List.append_assoc,
    List.singleton_append, shorten_append_quote hq, shorten_append_quote hq]
  simp

theorem split_at_mark {q : Char} {s : List Char} (h : q ∈ s) :
    s = s.takeWhile (· ≠ q) ++ q :: s.drop ((s.takeWhile (· ≠ q)).length + 1) := by
  induction s with
  | nil => cases h
  | cons c s ih =>
    by_cases hc : c = q
    · simp [hc]
    · have hs : q ∈ s := (List.mem_cons.1 h).resolve_left (Ne.symm hc)
      rw [List.takeWhile_cons_of_pos (by simpa using hc), List.cons_append, List.length_cons,
        List.drop_succ_cons, ← ih hs]

theorem flatMap_segmentsFrom (code s : List Char) :
    (segmentsFrom code s).flatMap Segment.minify =
      (Reading.code.stretches code [] s).flatMap fun p => p.1.shorten p.2 := by
  fun_induction segmentsFrom code s with
  | case1 code => rfl
  | case2 code c s hc content ih =>
    rw [Bool.and_eq_true] at hc
    have hmem : c ∈ s := by simpa using hc.2
    have hout : c ∉ content := fun hm => by
      simpa using List.all_eq_true.1 List.all_takeWhile _ hm
    have hsplit : s = content ++ c :: s.drop (content.length + 1) := split_at_mark hmem
    have hlater := minifyFrom_append_quote hc.1 (.literal c) [] content (s.drop (content.length + 1))
    rw [← hsplit, minifyFrom_literal hout, after_literal hout, next_literal_mark hc.1] at hlater
    rw [Reading.stretches, if_pos hc.1, List.append_nil, next_code hc.1 hmem]
    rw [List.flatMap_cons, List.flatMap_cons, List.flatMap_cons, ih, ← minifyFrom, ← minifyFrom,
      hlater, shorten_append_quote hc.1, Segment.minify, Segment.minify,
      List.cons_append, collapse_cons_of_not_blank (isStringQuote_facts hc.1).1,
      collapse_append_quote hc.1]
    simp [Reading.shorten, collapse]
  | case3 code c s hc ih =>
    rw [Reading.stretches]
    split
    · rename_i hq
      have hnext : Reading.code.next c (s ++ []) = .code := by
        rw [List.append_nil]
        simp only [hq, Bool.true_and, Bool.not_eq_true] at hc
        simp only [Reading.next, hq, hc, if_true, Bool.false_eq_true, if_false]
      rw [ih, stretches_cons_quote hq, List.flatMap_cons, hnext, minifyFrom]
    · exact ih

/-- **Minified source is its stretches, shortened one by one**, without the blanks at its ends. -/
theorem minify_eq_strip (s : List Char) : minify s = strip (minifyFrom .code [] s) := by
  rw [minify, segments, flatMap_segmentsFrom, minifyFrom]

/-! ## The first character -/

section
variable (r : Reading) (rest : List Char)

@[simp] theorem minifyFrom_nil : minifyFrom r rest [] = [] := by
  simp [minifyFrom, Reading.stretches]

theorem minifyFrom_quote {q : Char} (hq : isStringQuote q = true) (s : List Char) :
    minifyFrom r rest (q :: s) = q :: minifyFrom (r.next q (s ++ rest)) rest s := by
  have h := minifyFrom_append_quote hq r rest [] s
  rwa [List.nil_append, minifyFrom_nil] at h

omit r rest in
theorem isStringQuote_of_isBlank {c : Char} (h : isBlank c = true) : isStringQuote c = false := by
  refine Bool.eq_false_iff.2 fun hq => ?_
  rw [(isStringQuote_facts hq).1] at h
  cases h

omit r rest in
theorem dropBlanks_before_quote (s : List Char) :
    (s.dropWhile isBlank).takeWhile (!isStringQuote ·) =
        (s.takeWhile (!isStringQuote ·)).dropWhile isBlank ∧
      (s.dropWhile isBlank).dropWhile (!isStringQuote ·) = s.dropWhile (!isStringQuote ·) := by
  induction s with
  | nil => exact ⟨rfl, rfl⟩
  | cons c s ih =>
    cases hb : isBlank c with
    | true => simpa [hb, isStringQuote_of_isBlank hb] using ih
    | false => cases hq : isStringQuote c <;> simp [hb, hq]

omit r rest in
theorem head?_of_isPrefix {a s : List Char} {c : Char} (h : a <+: s) (ha : a.head? = some c) :
    s.head? = some c := by
  obtain ⟨t, rfl⟩ := h
  rw [List.head?_append, ha]
  rfl

/-- The text up to the first quotation mark is shortened as a whole, and what becomes of the rest does not
depend on it. -/
theorem exists_minifyFrom (s : List Char) :
    ∃ w t, minifyFrom r rest s = r.shorten w ++ t ∧
      (∀ c, isStringQuote c = false → minifyFrom r rest (c :: s) = r.shorten (c :: w) ++ t) ∧
      minifyFrom r rest (s.dropWhile isBlank) = r.shorten (w.dropWhile isBlank) ++ t ∧
      w.dropWhile isBlank <+: s.dropWhile isBlank := by
  obtain ⟨htake, hdrop⟩ := dropBlanks_before_quote s
  refine ⟨s.takeWhile (!isStringQuote ·), _, flatMap_stretches r [] rest s, fun c hc => ?_, ?_, ?_⟩
  · rw [minifyFrom, flatMap_stretches, List.takeWhile_cons_of_pos (by simp [hc]),
      List.dropWhile_cons_of_pos (by simp [hc])]
    rfl
  · rw [minifyFrom, flatMap_stretches, htake, hdrop]
    rfl
  · rw [← htake]
    exact List.takeWhile_prefix _

/-- **A character that is neither a blank nor a semicolon is kept**, and the blanks behind it go at
most. -/
theorem minifyFrom_keep {c : Char} (hb : isBlank c = false) (hq : isStringQuote c = false)
    (hc : c ≠ ';') (s : List Char) :
    minifyFrom r rest (c :: s) = c :: minifyFrom r rest s ∨
      isLoose c = true ∧
        minifyFrom r rest (c :: s) = c :: minifyFrom r rest (s.dropWhile isBlank) := by
  obtain ⟨w, t, hs, hcons, hdrop, -⟩ := exists_minifyFrom r rest s
  rw [hcons c hq, hs, hdrop]
  cases r with
  | code =>
    simp only [Reading.shorten]
    rcases minifyCode_keep hb hc w with h | ⟨hl, h⟩ <;> rw [h]
    · exact .inl rfl
    · exact .inr ⟨hl, rfl⟩
  | literal mark =>
    simp only [Reading.shorten]
    rw [collapse_cons_of_not_blank hb]
    exact .inl rfl

/-- Characters that no pass looks at are kept, and nothing behind them changes. -/
theorem minifyFrom_plain {a : List Char} (ha : ∀ c ∈ a, isBlank c = false ∧
    isStringQuote c = false ∧ isLoose c = false) (s : List Char) :
    minifyFrom r rest (a ++ s) = a ++ minifyFrom r rest s := by
  induction a with
  | nil => rfl
  | cons c a ih =>
    obtain ⟨hb, hq, hl⟩ := ha c (by simp)
    have hc : c ≠ ';' := fun e => by
      rw [e] at hl
      cases hl
    rw [List.cons_append, List.cons_append, ← ih fun d hd => ha d (by simp [hd])]
    refine (minifyFrom_keep r rest hb hq hc (a ++ s)).resolve_right fun h => ?_
    rw [hl] at h
    cases h.1

/-- **A semicolon goes only in front of a closing brace.** -/
theorem minifyFrom_semicolon (s : List Char) :
    ∃ t, (t = s ∨ t = s.dropWhile isBlank) ∧
      (minifyFrom r rest (';' :: s) = ';' :: minifyFrom r rest t ∨
        t.head? = some '\x7d' ∧ minifyFrom r rest (';' :: s) = minifyFrom r rest t) := by
  obtain ⟨w, t, hs, hcons, hdrop, hprefix⟩ := exists_minifyFrom r rest s
  rw [hcons ';' (by decide)]
  cases r with
  | code =>
    refine ⟨_, .inr rfl, ?_⟩
    rw [hdrop]
    simp only [Reading.shorten]
    rcases minifyCode_semicolon w with h | ⟨hbrace, h⟩ <;> rw [h]
    · exact .inl rfl
    · exact .inr ⟨head?_of_isPrefix hprefix hbrace, rfl⟩
  | literal mark =>
    refine ⟨s, .inl rfl, .inl ?_⟩
    rw [hs]
    simp only [Reading.shorten]
    rw [collapse_cons_of_not_blank (by decide)]
    rfl

/-- **A run of blanks becomes one space**, or goes in front of a tag or punctuation. -/
theorem minifyFrom_blank {b : Char} (hb : isBlank b = true) (s : List Char) :
    minifyFrom r rest (b :: s) = ' ' :: minifyFrom r rest (s.dropWhile isBlank) ∨
      (s.dropWhile isBlank).head?.any isTight = true ∧
        minifyFrom r rest (b :: s) = minifyFrom r rest (s.dropWhile isBlank) := by
  obtain ⟨w, t, -, hcons, hdrop, hprefix⟩ := exists_minifyFrom r rest s
  rw [hcons b (isStringQuote_of_isBlank hb), hdrop]
  cases r with
  | code =>
    simp only [Reading.shorten]
    rcases minifyCode_blank hb w with h | ⟨htight, h⟩ <;> rw [h]
    · exact .inl rfl
    · refine .inr ⟨?_, rfl⟩
      cases hw : (w.dropWhile isBlank).head? with
      | none => rw [hw] at htight; cases htight
      | some c =>
        rw [hw] at htight
        rw [head?_of_isPrefix hprefix hw]
        exact htight
  | literal mark =>
    simp only [Reading.shorten]
    rw [collapse_cons_of_blank hb]
    exact .inl rfl

omit r rest in
theorem getLast?_dropBlanks {s : List Char} {c : Char} (hc : isBlank c = false)
    (h : s.getLast? = some c) : (s.dropWhile isBlank).getLast? = some c := by
  induction s with
  | nil => cases h
  | cons d s ih =>
    cases hd : isBlank d with
    | false => rwa [List.dropWhile_cons_of_neg (by simp [hd])]
    | true =>
      rw [List.dropWhile_cons_of_pos hd]
      cases s with
      | nil =>
        obtain rfl : d = c := by simpa using h
        rw [hd] at hc
        cases hc
      | cons e s => exact ih (by rwa [List.getLast?_cons_cons] at h)

/-- One step in any case: a character at most is written, and what follows is minified on its own. -/
theorem exists_minifyFrom_cons (c : Char) (s : List Char) :
    ∃ pre r' t, minifyFrom r rest (c :: s) = pre ++ minifyFrom r' rest t ∧
      (t = s ∨ t = s.dropWhile isBlank) ∧ (s = [] → isBlank c = false → pre = [c]) := by
  cases hq : isStringQuote c with
  | true => exact ⟨[c], _, s, minifyFrom_quote r rest hq s, .inl rfl, fun _ _ => rfl⟩
  | false =>
    cases hb : isBlank c with
    | true =>
      rcases minifyFrom_blank r rest hb s with h | ⟨-, h⟩
      · exact ⟨[' '], r, _, h, .inr rfl, fun _ h => by cases h⟩
      · exact ⟨[], r, _, h, .inr rfl, fun _ h => by cases h⟩
    | false =>
      by_cases hc : c = ';'
      · subst hc
        obtain ⟨t, ht, h | ⟨hbrace, h⟩⟩ := minifyFrom_semicolon r rest s
        · exact ⟨[';'], r, t, h, ht, fun _ _ => rfl⟩
        · refine ⟨[], r, t, h, ht, fun hs _ => ?_⟩
          subst hs
          rw [ht.elim id id] at hbrace
          cases hbrace
      · rcases minifyFrom_keep r rest hb hq hc s with h | ⟨-, h⟩
        · exact ⟨[c], r, s, h, .inl rfl, fun _ _ => rfl⟩
        · exact ⟨[c], r, _, h, .inr rfl, fun _ _ => rfl⟩

/-- The last character is kept if it is no blank. -/
theorem getLast?_minifyFrom {s : List Char} {c : Char} (hc : isBlank c = false)
    (h : s.getLast? = some c) : (minifyFrom r rest s).getLast? = some c := by
  induction hn : s.length using Nat.strongRecOn generalizing r s with
  | ind n ih =>
    cases s with
    | nil => cases h
    | cons d s =>
      obtain ⟨pre, r', t, hcons, ht, hlast⟩ := exists_minifyFrom_cons r rest d s
      rw [hcons]
      cases s with
      | nil =>
        obtain rfl : d = c := by simpa using h
        rw [hlast rfl hc, show t = [] from ht.elim id id, minifyFrom_nil]
        rfl
      | cons e s =>
        rw [List.getLast?_cons_cons] at h
        have htlast : t.getLast? = some c := by
          rcases ht with rfl | rfl
          · exact h
          · exact getLast?_dropBlanks hc h
        have hlt : t.length < n := by
          have hle : t.length ≤ (e :: s).length := by
            rcases ht with rfl | rfl
            · exact Nat.le_refl _
            · exact (List.dropWhile_sublist _).length_le
          simp only [List.length_cons] at hn hle
          omega
        rw [List.getLast?_append, ih _ hlt r' htlast rfl]
        rfl

/-- The first character is kept if it is no blank, or else a bracket behind it is. -/
theorem clear_minifyFrom {s : List Char} (h : Clear isBlank s) :
    Clear isBlank (minifyFrom r rest s) := by
  have hkeep : ∀ (c : Char) (s : List Char), isBlank c = false → isStringQuote c = false →
      c ≠ ';' → Clear isBlank (minifyFrom r rest (c :: s)) := by
    intro c s hb hq hc
    rcases minifyFrom_keep r rest hb hq hc s with hs | ⟨-, hs⟩ <;>
    · rw [hs, clear_cons]
      exact hb
  cases s with
  | nil =>
    rw [minifyFrom_nil]
    exact h
  | cons c s =>
    rw [clear_cons] at h
    cases hq : isStringQuote c with
    | true =>
      rw [minifyFrom_quote r rest hq, clear_cons]
      exact h
    | false =>
      by_cases hc : c = ';'
      · subst hc
        obtain ⟨t, -, hs | ⟨hbrace, hs⟩⟩ := minifyFrom_semicolon r rest s
        · rw [hs, clear_cons]
          exact h
        · obtain ⟨u, rfl⟩ := List.head?_eq_some_iff.1 hbrace
          rw [hs]
          exact hkeep _ u (by decide) (by decide) (by decide)
      · exact hkeep c s h hq hc

end

theorem stripEnd_of_getLast? {s : List Char} {c : Char} (hc : isBlank c = false)
    (h : s.getLast? = some c) : stripEnd s = s := by
  induction s with
  | nil => rfl
  | cons d s ih =>
    cases s with
    | nil =>
      obtain rfl : d = c := by simpa using h
      rw [stripEnd_cons, hc, Bool.and_false, if_neg (by simp), stripEnd_nil]
    | cons e s =>
      rw [List.getLast?_cons_cons] at h
      rw [stripEnd_cons, ih h, if_neg (by simp)]

/-- Source without blanks at its edges is minified as it stands. -/
theorem minify_eq_minifyFrom {s : List Char} (hstart : Clear isBlank s) {c : Char}
    (hend : s.getLast? = some c) (hc : isBlank c = false) :
    minify s = minifyFrom .code [] s := by
  have hclear := clear_minifyFrom .code [] hstart
  rw [minify_eq_strip, strip, stripStart, hclear.dropWhile,
    stripEnd_of_getLast? hc (getLast?_minifyFrom .code [] hc hend)]

end SvgComponent.Source
