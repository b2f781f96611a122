import SvgComponent.Proofs.KeptCharacters

/-!
# Source that is minified already

Minifying leaves its own result as it is, as long as no two semicolons of the source have nothing but
blanks between them. The second time the marks are paired as they were the first time, since all of them
are still there, so that each stretch of the result is the shortened form of a stretch of the source
(`stretches_minifyFrom`). Code in its shortened form is steady (`isSteady_minifyCode`), and so is every
part of it (`isSteady_of_isInfix`); the passes have nothing to do there.

Of two semicolons before a closing brace the first run drops the second one only, and the next run the
other.
-/

namespace SvgComponent.Source

open Text Jsx

/-! ## Shortened code is steady -/

theorem mem_of_startsWithBreak {s : List Char} (h : startsWithBreak s = true) : '\n' ∈ s := by
  induction s with
  | nil => cases h
  | cons c s ih =>
    rw [startsWithBreak_cons] at h
    split at h
    · exact List.mem_cons_of_mem _ (ih h)
    · simp only [Bool.or_eq_true, Bool.and_eq_true, beq_iff_eq] at h
      rcases h with rfl | ⟨-, h⟩
      · exact List.mem_cons_self
      · exact List.mem_cons_of_mem _ (List.mem_of_mem_head? h)

theorem startsWithBreak_minifyCode (s : List Char) : startsWithBreak (minifyCode s) = false := by
  apply Bool.eq_false_iff.2
  intro h
  rcases mem_minifyCode (mem_of_startsWithBreak h) with h | ⟨h, -⟩ <;> cases h

/-- What shortened code starts with: a first semicolon may have gone, and a brace stands there then. -/
theorem head?_minifyCode_eq {s : List Char} (hs : Clear isBlank s) :
    (minifyCode s).head? = s.head? ∨
      s.head? = some ';' ∧ (minifyCode s).head? = some '\x7d' := by
  cases s with
  | nil => exact .inl rfl
  | cons c s =>
    rw [clear_cons] at hs
    by_cases hc : c = ';'
    · subst hc
      rcases minifyCode_semicolon s with h | ⟨hbrace, h⟩
      · rw [h]
        exact .inl rfl
      · obtain ⟨t, ht⟩ := List.head?_eq_some_iff.1 hbrace
        rw [h, ht, minifyCode_punctuation (by decide) (by decide)]
        exact .inr ⟨rfl, rfl⟩
    · rcases minifyCode_keep hs hc s with h | ⟨-, h⟩ <;> rw [h] <;> exact .inl rfl

/-- A space that is left has no punctuation behind it. -/
theorem minifyCode_blank_or {b : Char} (hb : isBlank b = true) (s : List Char) :
    minifyCode (b :: s) = minifyCode (s.dropWhile isBlank) ∨
      (minifyCode (s.dropWhile isBlank)).head?.any isPunctuation = false ∧
        minifyCode (b :: s) = ' ' :: minifyCode (s.dropWhile isBlank) := by
  rw [minifyCode_eq (b :: s)]
  rcases joined_blank hb s with h | ⟨-, h⟩
  · rw [h, dropSemicolons_of_ne (by decide), tightenPunctuation_of_blank (by decide), ← minifyCode_eq]
    split
    · exact .inl rfl
    · rename_i hp
      exact .inr ⟨by simpa using hp, rfl⟩
  · exact .inl (by rw [h, minifyCode_eq])

/-- Text in which no two semicolons have nothing but blanks between them. -/
def ApartSemicolons (s : List Char) : Prop := ¬[';', ';'] <:+: squash s

instance : DecidablePred ApartSemicolons := fun s =>
  inferInstanceAs (Decidable (¬[';', ';'] <:+: squash s))

theorem ApartSemicolons.of_isInfix {s t : List Char} (h : ApartSemicolons t) (hs : s <:+: t) :
    ApartSemicolons s :=
  fun hpair => h (hpair.trans (hs.filter _))

theorem ApartSemicolons.head?_ne {s : List Char} (h : ApartSemicolons (';' :: s)) :
    (s.dropWhile isBlank).head? ≠ some ';' := by
  intro hs
  obtain ⟨t, ht⟩ := List.head?_eq_some_iff.1 hs
  apply h
  rw [squash_cons, if_neg (by decide), ← squash_dropBlanks, ht, squash_cons, if_neg (by decide)]
  exact ⟨[], squash t, rfl⟩

section
variable {c : Char} (hb : isBlank c = false)
include hb

theorem isSteadyAt_of_clear {t : List Char} (ht : Clear isBlank t)
    (hbrace : c = ';' → t.head? ≠ some '\x7d') : isSteadyAt c t = true := by
  have hhead : t.head?.any isBlank = false := by
    cases hd : t.head? with
    | none => rfl
    | some d => exact ht d hd
  rw [isSteadyAt, if_neg (by simp [hb]), hhead]
  split
  · simpa [imp_iff_not_or] using hbrace
  · simp

/-- Behind a character that is kept with the blanks behind it there is nothing left to do. -/
theorem isSteadyAt_minifyCode {s : List Char} (hc : c ≠ ';')
    (h : minifyCode (c :: s) = c :: minifyCode s) : isSteadyAt c (minifyCode s) = true := by
  have hclear : minifyCode s = minifyCode (s.dropWhile isBlank) →
      isSteadyAt c (minifyCode s) = true := by
    intro hs
    rw [hs]
    exact isSteadyAt_of_clear hb (clear_minifyCode_dropBlanks s) fun e => absurd e hc
  cases hp : isPunctuation c with
  | true =>
    rw [minifyCode_punctuation hp hc] at h
    exact hclear (List.cons.inj h).2.symm
  | false =>
    by_cases hgt : c = '>'
    · subst hgt
      rw [minifyCode_tag] at h
      split at h
      · exact hclear (List.cons.inj h).2.symm
      · rename_i hstays
        have htag : ((minifyCode s).dropWhile isBlank).head? ≠ some '<' := by
          rw [stripStart_minifyCode]
          rcases head?_minifyCode_eq (clear_dropWhile isBlank s) with hm | ⟨-, hm⟩ <;> rw [hm]
          · exact fun hlt => hstays (.inr hlt)
          · decide
        rw [isSteadyAt, if_neg (by decide), if_neg (by decide), startsWithBreak_minifyCode]
        simp [htag]
    · rw [isSteadyAt, if_neg (by simp [hb]), if_neg (by simp [hp])]
      simp [hgt]

end

/-- **The passes leave steady code behind**, if no two semicolons follow each other. -/
theorem isSteady_minifyCode {s : List Char} (h : ApartSemicolons s) : isSteady (minifyCode s) = true := by
  -- on the length, as a step can go past a whole run of blanks
  induction hn : s.length using Nat.strongRecOn generalizing s with
  | ind n ih =>
    cases s with
    | nil => rfl
    | cons c s =>
      rw [List.length_cons] at hn
      have hnext : isSteady (minifyCode s) = true :=
        ih _ (by omega) (h.of_isInfix (List.suffix_cons c s).isInfix) rfl
      have hskip : isSteady (minifyCode (s.dropWhile isBlank)) = true := by
        have hle := (List.dropWhile_sublist isBlank (l := s)).length_le
        refine ih _ (by omega) (h.of_isInfix ?_) rfl
        exact ((List.dropWhile_suffix isBlank).trans (List.suffix_cons c s)).isInfix
      have hclear := clear_minifyCode_dropBlanks s
      cases hb : isBlank c with
      | true =>
        rcases minifyCode_blank_or hb s with hc | ⟨hp, hc⟩
        · rw [hc]
          exact hskip
        · rw [hc, isSteady, hskip, isSteadyAt, hp]
          rfl
      | false =>
        by_cases hsemicolon : c = ';'
        · subst hsemicolon
          by_cases hbrace : (s.dropWhile isBlank).head? = some '\x7d'
          · rw [minifyCode_semicolon_brace hbrace]
            exact hskip
          · have hnone : (minifyCode (s.dropWhile isBlank)).head? ≠ some '\x7d' := by
              rcases head?_minifyCode_eq (clear_dropWhile isBlank s) with hm | ⟨hm, -⟩
              · rwa [hm]
              · exact absurd hm h.head?_ne
            rw [(minifyCode_semicolon s).resolve_right fun hm => hbrace hm.1, isSteady, hskip,
              isSteadyAt_of_clear hb hclear fun _ => hnone]
            rfl
        · rcases minifyCode_keep hb hsemicolon s with hc | ⟨-, hc⟩
          · rw [hc, isSteady, hnext, isSteadyAt_minifyCode hb hsemicolon hc]
            rfl
          · rw [hc, isSteady, hskip, isSteadyAt_of_clear hb hclear fun e => absurd e hsemicolon]
            rfl

/-! ## Parts of steady code -/

theorem startsWithBreak_append_of {a : List Char} (h : startsWithBreak a = true) (b : List Char) :
    startsWithBreak (a ++ b) = true := by
  induction a with
  | nil => cases h
  | cons c a ih =>
    rw [startsWithBreak_cons] at h
    rw [List.cons_append, startsWithBreak_cons]
    split
    · rename_i hc
      rw [if_pos hc] at h
      exact ih h
    · rename_i hc
      rw [if_neg hc] at h
      cases a <;> simp_all

theorem head?_dropWhile_append {p : Char → Bool} {a : List Char} {c : Char}
    (h : (a.dropWhile p).head? = some c) (b : List Char) : ((a ++ b).dropWhile p).head? = some c := by
  obtain ⟨t, ht⟩ := List.head?_eq_some_iff.1 h
  rw [List.dropWhile_append, if_neg (by simp [ht]), ht]
  rfl

theorem isSteadyAt_of_append {c : Char} {a b : List Char} (h : isSteadyAt c (a ++ b) = true) :
    isSteadyAt c a = true := by
  cases a with
  | nil => simp [isSteadyAt, startsWithBreak]
  | cons d a =>
    have hhead : (d :: a ++ b).head? = (d :: a).head? := rfl
    have htag : ∀ p : Char → Bool, ((d :: a).dropWhile p).head? = some '<' →
        ((d :: a ++ b).dropWhile p).head? = some '<' := fun p hp => head?_dropWhile_append hp b
    have hbreak : startsWithBreak (d :: a) = true → startsWithBreak (d :: a ++ b) = true :=
      fun hb => startsWithBreak_append_of hb b
    simp only [isSteadyAt, hhead] at h ⊢
    grind

theorem isSteady_of_append {a b : List Char} (h : isSteady (a ++ b) = true) :
    isSteady a = true ∧ isSteady b = true := by
  induction a with
  | nil => exact ⟨rfl, h⟩
  | cons c a ih =>
    rw [List.cons_append, isSteady, Bool.and_eq_true] at h
    obtain ⟨ha, hb⟩ := ih h.2
    exact ⟨by rw [isSteady, isSteadyAt_of_append h.1, ha]; rfl, hb⟩

/-- **A part of steady code is steady.** -/
theorem isSteady_of_isInfix {s t : List Char} (hs : s <:+: t) (h : isSteady t = true) :
    isSteady s = true := by
  obtain ⟨a, b, rfl⟩ := hs
  exact (isSteady_of_append (isSteady_of_append h).1).2

/-! ## The stretches of minified source -/

theorem next_congr {c : Char} {s t : List Char} (h : c ∈ s ↔ c ∈ t) (r : Reading) :
    r.next c s = r.next c t := by
  cases r <;> simp [Reading.next, h]

/-- Text without quotation marks belongs to the stretch that is being read. -/
theorem stretches_append_unquoted {a : List Char} (ha : ∀ c ∈ a, isStringQuote c = false) (r : Reading)
    (start rest s : List Char) :
    r.stretches start rest (a ++ s) = r.stretches (a.reverse ++ start) rest s := by
  induction a generalizing start with
  | nil => rfl
  | cons c a ih =>
    rw [List.cons_append, Reading.stretches, if_neg (by simp [ha c (by simp)]),
      ih fun d hd => ha d (by simp [hd])]
    simp

/-- Text in front of a stretch, and text without quotation marks behind it, make it longer at most. -/
theorem exists_stretch_around {b : List Char} (hb : ∀ c ∈ b, isStringQuote c = false) {r r' : Reading}
    {start rest s w : List Char} (h : (r', w) ∈ r.stretches start rest s) (a : List Char) :
    ∃ w', (r', w') ∈ r.stretches (start ++ a) rest (s ++ b) ∧ w <:+: w' := by
  induction s generalizing r start a with
  | nil =>
    have hall := stretches_append_unquoted hb r (start ++ a) rest []
    simp only [Reading.stretches, List.mem_singleton, Prod.mk.injEq] at h
    obtain ⟨rfl, rfl⟩ := h
    rw [List.append_nil] at hall
    rw [List.nil_append, hall]
    exact ⟨_, List.mem_singleton.2 rfl, a.reverse, b, by simp⟩
  | cons c s ih =>
    rw [Reading.stretches] at h
    rw [List.cons_append, Reading.stretches]
    split at h
    · rename_i hc
      rw [if_pos hc]
      rcases List.mem_cons.1 h with h | h
      · obtain ⟨rfl, rfl⟩ := Prod.mk.inj h
        exact ⟨_, List.mem_cons_self, a.reverse, [], by simp⟩
      · have hmark : c ∈ s ++ rest ↔ c ∈ s ++ b ++ rest := by
          have hout : c ∉ b := fun hm => by
            rw [hb c hm] at hc
            cases hc
          simp [hout]
        obtain ⟨w', hw', hw⟩ := ih h []
        rw [next_congr hmark] at hw'
        exact ⟨w', List.mem_cons_of_mem _ hw', hw⟩
    · rename_i hc
      rw [if_neg hc]
      exact ih h a

theorem Shortened.mem_iff {s t : List Char} (h : Shortened s t) {c : Char} (hb : isBlank c = false)
    (hc : c ≠ ';') : c ∈ t ↔ c ∈ s := by
  induction h with
  | nil => rfl
  | char _ _ ih => rw [List.mem_cons, List.mem_cons, ih]
  | semicolon _ _ ih => rw [ih, List.mem_cons, or_iff_right hc]
  | blank hd _ ih => rw [ih, List.mem_cons, or_iff_right (ne_of_isBlank hd hb).symm]
  | space hd _ _ ih =>
    rw [List.mem_cons, List.mem_cons, ih, or_iff_right (ne_of_isBlank (by decide) hb).symm,
      or_iff_right (ne_of_isBlank hd hb).symm]

/-- All quotation marks are still there. -/
theorem quote_mem_minifyFrom_iff {q : Char} (hq : isStringQuote q = true) (r : Reading)
    (rest s : List Char) : q ∈ minifyFrom r rest s ↔ q ∈ s := by
  obtain ⟨hb, -, -, -, -, -, -, hsemicolon, -⟩ := isStringQuote_facts hq
  exact (shortened_minifyFrom r rest s).mem_iff hb hsemicolon

theorem shorten_unquoted {s : List Char} (hs : ∀ c ∈ s, isStringQuote c = false) (r : Reading) :
    ∀ c ∈ r.shorten s, isStringQuote c = false := by
  intro c hc
  rcases mem_shorten hc with rfl | hc
  · decide
  · exact hs c hc

/-- **Minified text is read as it was before**: its stretches are those of the text, shortened one by
one. -/
theorem stretches_minifyFrom (r : Reading) (rest s : List Char) :
    r.stretches [] rest (minifyFrom r rest s) =
      (r.stretches [] rest s).map fun p => (p.1, p.1.shorten p.2) := by
  -- What has been read of the current stretch is `start`; it has no marks.
  suffices h : ∀ start : List Char, (∀ c ∈ start, isStringQuote c = false) →
      r.stretches [] rest ((r.stretches start rest s).flatMap fun p => p.1.shorten p.2) =
        (r.stretches start rest s).map fun p => (p.1, p.1.shorten p.2) from h [] (by simp)
  induction s generalizing r with
  | nil =>
    intro start hstart
    have hshort := shorten_unquoted (s := start.reverse) (by simpa using hstart) r
    have hall := stretches_append_unquoted hshort r [] rest []
    simpa [Reading.stretches] using hall
  | cons c s ih =>
    intro start hstart
    rw [Reading.stretches]
    split
    · rename_i hc
      have hshort := shorten_unquoted (s := start.reverse) (by simpa using hstart) r
      have hlater := ih (r.next c (s ++ rest)) [] (by simp)
      have hmark : c ∈ minifyFrom (r.next c (s ++ rest)) rest s ++ rest ↔ c ∈ s ++ rest := by
        rw [List.mem_append, List.mem_append, quote_mem_minifyFrom_iff hc]
      rw [← minifyFrom] at hlater
      rw [List.flatMap_cons, List.map_cons, ← minifyFrom, ← hlater, shorten_append_quote hc,
        shorten_nil, List.append_assoc, List.singleton_append, stretches_append_unquoted hshort,
        Reading.stretches, if_pos hc, next_congr hmark]
      simp
    · rename_i hc
      refine ih r (c :: start) ?_
      intro d hd
      rcases List.mem_cons.1 hd with rfl | hd
      · simpa using hc
      · exact hstart d hd

theorem isInfix_of_mem_stretches {r : Reading} {rest s : List Char} {p : Reading × List Char}
    (hp : p ∈ r.stretches [] rest s) : p.2 <:+: s := by
  have hflat := flatMap_snd_stretches r [] rest s
  rw [List.reverse_nil, List.nil_append] at hflat
  rw [← hflat]
  exact List.infix_of_mem_flatten (List.mem_map_of_mem hp)

/-! ## Minifying again -/

/-- **Minifying again changes nothing**, if no two semicolons of the source have nothing but blanks
between them. -/
theorem minify_minify {source : List Char} (h : ApartSemicolons source) :
    minify (minify source) = minify source := by
  have hshort := shortened_minifyFrom .code [] source
  have hstretches := stretches_minifyFrom .code [] source
  obtain ⟨a, b, hstrip, ha, hb⟩ := exists_strip (minifyFrom .code [] source)
  have hunquoted : ∀ {t : List Char}, (∀ c ∈ t, isBlank c = true) → ∀ c ∈ t, isStringQuote c = false :=
    fun ht c hc => isStringQuote_of_isBlank (ht c hc)
  -- Every stretch of code is a part of shortened code, and so steady.
  have hsteady : ∀ w, (.code, w) ∈ Reading.code.stretches [] [] (strip (minifyFrom .code [] source)) →
      isSteady w = true := by
    intro w hw
    obtain ⟨w', hw', hinfix⟩ := exists_stretch_around (hunquoted hb) hw a.reverse
    rw [List.nil_append, ← List.append_nil a.reverse, ← stretches_append_unquoted (hunquoted ha),
      ← List.append_assoc, ← hstrip, hstretches] at hw'
    obtain ⟨⟨r, v⟩, hv, heq⟩ := List.mem_map.1 hw'
    obtain ⟨rfl, rfl⟩ := Prod.mk.inj heq
    exact isSteady_of_isInfix hinfix
      (isSteady_minifyCode (h.of_isInfix (isInfix_of_mem_stretches hv)))
  have hkept : minifyFrom .code [] (strip (minifyFrom .code [] source)) =
      strip (minifyFrom .code [] source) := by
    rw [(minifyFrom_eq_collapse_iff _ _ _).2 hsteady]
    apply collapse_eq_self
    · exact fun c hc => hshort.eq_space c (mem_of_mem_strip hc)
    · exact fun hp => hshort.not_pair (hp.trans (isInfix_strip _))
  rw [minify_eq_strip, minify_eq_strip source, hkept, strip_strip]

/-- Marks that are not closed, marks of the other kind inside literals, and a semicolon that goes. -/
theorem minify_minify_mixed :
    ApartSemicolons "a = \"it's ; \" ;\n \x7d it's > \r\n< b ; \" ;".toList ∧
      minify (minify "a = \"it's ; \" ;\n \x7d it's > \r\n< b ; \" ;".toList) =
        minify "a = \"it's ; \" ;\n \x7d it's > \r\n< b ; \" ;".toList :=
  have h : ApartSemicolons "a = \"it's ; \" ;\n \x7d it's > \r\n< b ; \" ;".toList := by
    decide +kernel
  ⟨h, minify_minify h⟩

example : minify ";;\x7d".toList = ";\x7d".toList ∧ minify ";\x7d".toList = "\x7d".toList := by
  decide +kernel

end SvgComponent.Source
