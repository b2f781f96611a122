import SvgComponent.Proofs.RoundTrip

/-!
# Text as it is written

Character data is written as its words, one space apart, with special characters in containers. Here
that is followed one character at a time, which says how written text starts and ends and what it holds.

* `spaced_of_blank`, `spaced_of_not_blank`: the words of a text from its first character on.
* `mem_mixedText`: no blanks but spaces are written.
* `head?_mixedText`, `getLast?_mixedText`: text among other nodes starts and ends with no blank, and with
  no bracket that it could close or open.
-/

namespace SvgComponent.Text

/-! ## Words, one character at a time -/

/-- Runs can be extended if the text starts with a character of the class. -/
theorem fst_foldr_push (p : Char → Bool) (s : List Char) :
    (s.foldr (runs.push p) (false, [])).1 = s.head?.any p := by
  cases s with
  | nil => rfl
  | cons c s =>
    rw [List.foldr_cons]
    generalize s.foldr (runs.push p) (false, []) = state
    obtain ⟨joined, rs⟩ := state
    cases hc : p c with
    | false => simp [runs.push, hc]
    | true => cases joined <;> cases rs <;> simp [runs.push, hc]

theorem words_of_blank {b : Char} (hb : isBlank b = true) (s : List Char) :
    words (b :: s) = words s := by
  simp only [words, runs, List.foldr_cons]
  generalize s.foldr (runs.push (!isBlank ·)) (false, []) = state
  simp [runs.push, hb]

/-- A character that is no blank extends the word it stands in front of, or is a word of its own. -/
theorem words_of_not_blank {c : Char} (hc : isBlank c = false) (s : List Char) :
    (s.head?.any isBlank = false ∧ ∃ w ws, words s = w :: ws ∧ words (c :: s) = (c :: w) :: ws) ∨
      (s = [] ∨ s.head?.any isBlank = true) ∧ words (c :: s) = [c] :: words s := by
  have hstate := fst_foldr_push (!isBlank ·) s
  have hne : ∀ d t, s = d :: t → isBlank d = false →
      (s.foldr (runs.push (!isBlank ·)) (false, [])).2 ≠ [] := by
    rintro d t rfl hd
    rw [List.foldr_cons]
    generalize t.foldr (runs.push (!isBlank ·)) (false, []) = state
    obtain ⟨joined, rs⟩ := state
    cases joined <;> cases rs <;> simp [runs.push, hd]
  simp only [words, runs, List.foldr_cons]
  generalize s.foldr (runs.push (!isBlank ·)) (false, []) = state at hstate hne ⊢
  obtain ⟨joined, rs⟩ := state
  simp only at hstate hne ⊢
  cases s with
  | nil =>
    obtain rfl : joined = false := hstate
    exact .inr ⟨.inl rfl, by simp [runs.push, hc]⟩
  | cons d s =>
    simp only [List.head?_cons, Option.any_some] at hstate ⊢
    cases hd : isBlank d with
    | true =>
      obtain rfl : joined = false := by simpa [hd] using hstate
      exact .inr ⟨.inr rfl, by simp [runs.push, hc]⟩
    | false =>
      obtain rfl : joined = true := by simpa [hd] using hstate
      obtain ⟨w, ws, rfl⟩ := List.exists_cons_of_ne_nil (hne d s rfl hd)
      exact .inl ⟨rfl, w, ws, rfl, by simp [runs.push, hc]⟩

theorem spaced_of_blank {b : Char} (hb : isBlank b = true) (s : List Char) :
    spaced (b :: s) = spaced s := by
  rw [spaced, words_of_blank hb, spaced]

theorem words_eq_nil {s : List Char} : words s = [] ↔ isBlankText s = true := by
  induction s with
  | nil => exact ⟨fun _ => rfl, fun _ => rfl⟩
  | cons c s ih =>
    cases hc : isBlank c with
    | true =>
      rw [words_of_blank hc, ih]
      simp [isBlankText, hc]
    | false =>
      refine iff_of_false ?_ (by simp [isBlankText, hc])
      rcases words_of_not_blank hc s with ⟨-, w, ws, -, h⟩ | ⟨-, h⟩ <;> simp [h]

/-- **The words of a text from its first character on**: a space follows it if blanks do and then
another word. -/
theorem spaced_of_not_blank {c : Char} (hc : isBlank c = false) (s : List Char) :
    spaced (c :: s) =
      c :: if s.head?.any isBlank && !isBlankText s then ' ' :: spaced s else spaced s := by
  rcases words_of_not_blank hc s with ⟨hs, w, ws, hw, h⟩ | ⟨hs, h⟩
  · simp [spaced, h, hw, hs, Jsx.intercalate_cons]
  · rw [spaced, h, Jsx.intercalate_cons, spaced]
    cases hw : words s with
    | nil =>
      rw [words_eq_nil.1 hw]
      simp [List.intercalate]
    | cons w ws =>
      have hblank : isBlankText s = false := by
        rw [← Bool.not_eq_true, ← words_eq_nil, hw]
        simp
      have hhead : s.head?.any isBlank = true := by
        refine hs.resolve_left ?_
        rintro rfl
        cases hblank
      simp [hhead, hblank, Jsx.intercalate_cons]

theorem spaced_eq_nil {s : List Char} : spaced s = [] ↔ isBlankText s = true := by
  induction s with
  | nil => exact ⟨fun _ => rfl, fun _ => rfl⟩
  | cons c s ih =>
    cases hc : isBlank c with
    | true =>
      rw [spaced_of_blank hc, ih]
      simp [isBlankText, hc]
    | false =>
      rw [spaced_of_not_blank hc]
      simp [isBlankText, hc]

/-- No blanks but spaces stand between words. -/
theorem not_blank_of_mem_spaced {c : Char} {s : List Char} (h : c ∈ spaced s) :
    c = ' ' ∨ isBlank c = false := by
  induction s with
  | nil => cases h
  | cons d s ih =>
    cases hd : isBlank d with
    | true =>
      rw [spaced_of_blank hd] at h
      exact ih h
    | false =>
      rw [spaced_of_not_blank hd] at h
      rcases List.mem_cons.1 h with rfl | h
      · exact .inr hd
      · split at h
        · exact (List.mem_cons.1 h).elim .inl ih
        · exact ih h

theorem clear_spaced (s : List Char) : Clear isBlank (spaced s) := by
  induction s with
  | nil => exact clear_nil _
  | cons c s ih =>
    cases hc : isBlank c with
    | true =>
      rw [spaced_of_blank hc]
      exact ih
    | false =>
      rw [spaced_of_not_blank hc, clear_cons]
      exact hc

/-- Putting words one space apart keeps them. -/
theorem words_spaced (s : List Char) : words (spaced s) = words s := by
  induction s with
  | nil => rfl
  | cons c s ih =>
    cases hc : isBlank c with
    | true => rw [spaced_of_blank hc, words_of_blank hc, ih]
    | false =>
      rw [spaced_of_not_blank hc]
      rcases words_of_not_blank hc s with ⟨hhead, w, ws, hw, h⟩ | ⟨hgap, h⟩
      · rw [hhead, Bool.false_and, if_neg (by simp), h]
        rcases words_of_not_blank hc (spaced s) with ⟨-, w', ws', hw', h'⟩ | ⟨hgap', -⟩
        · rw [ih, hw, List.cons.injEq] at hw'
          rw [h', hw'.1, hw'.2]
        · -- a word follows, and no blank before it
          cases hs : spaced s with
          | nil =>
            rw [spaced_eq_nil, ← words_eq_nil, hw] at hs
            cases hs
          | cons d t =>
            have hd := clear_spaced s
            rw [hs, clear_cons] at hd
            simp [hs, hd] at hgap'
      · rw [h]
        cases hblank : isBlankText s with
        | true =>
          rw [spaced_eq_nil.2 hblank, words_eq_nil.2 hblank]
          simp [words, runs, runs.push, hc]
        | false =>
          have hspace : isBlank ' ' = true := by decide
          have hhead : s.head?.any isBlank = true := by
            refine hgap.resolve_left ?_
            rintro rfl
            cases hblank
          rw [hhead, Bool.not_false, Bool.and_true, if_pos rfl]
          rcases words_of_not_blank hc (' ' :: spaced s) with ⟨hnot, -⟩ | ⟨-, h'⟩
          · simp [hspace] at hnot
          · rw [h', words_of_blank hspace, ih]

theorem getLast?_spaced {c : Char} {s : List Char} (h : (spaced s).getLast? = some c) :
    isBlank c = false := by
  induction s with
  | nil => cases h
  | cons d s ih =>
    cases hd : isBlank d with
    | true =>
      rw [spaced_of_blank hd] at h
      exact ih h
    | false =>
      rw [spaced_of_not_blank hd] at h
      cases hs : isBlankText s with
      | true =>
        rw [spaced_eq_nil.2 hs] at h
        obtain rfl : d = c := by simpa [hs] using h
        exact hd
      | false =>
        obtain ⟨e, t, ht⟩ : ∃ e t, spaced s = e :: t :=
          List.exists_cons_of_ne_nil fun he => by simp [spaced_eq_nil.1 he] at hs
        refine ih ?_
        rw [ht] at h ⊢
        split at h
        · simpa [List.getLast?_cons_cons] using h
        · simpa [List.getLast?_cons_cons] using h

/-! ## Pairs of characters -/

theorem not_pair_of_not_mem {x y : Char} {s : List Char} (h : x ∉ s) : ¬[x, y] <:+: s :=
  fun hs => h (hs.subset (by simp))

/-- A pair that stands in neither of two texts stands in both together only across the place where they
meet. -/
theorem not_pair_append {x y : Char} {a b : List Char} (ha : ¬[x, y] <:+: a) (hb : ¬[x, y] <:+: b)
    (hab : a.getLast? ≠ some x ∨ b.head? ≠ some y) : ¬[x, y] <:+: a ++ b := by
  induction a with
  | nil => exact hb
  | cons c a ih =>
    rw [List.infix_cons_iff, not_or] at ha
    rw [List.cons_append, List.infix_cons_iff, not_or]
    cases a with
    | nil =>
      refine ⟨fun hp => ?_, hb⟩
      obtain ⟨rfl, hy⟩ := List.cons_prefix_cons.1 hp
      obtain ⟨t, rfl⟩ := hy
      simp at hab
    | cons d a =>
      refine ⟨fun hp => ha.1 ?_, ih ha.2 (by simpa [List.getLast?_cons_cons] using hab)⟩
      obtain ⟨rfl, hy⟩ := List.cons_prefix_cons.1 hp
      obtain ⟨rfl, -⟩ := List.cons_prefix_cons.1 hy
      simp

end SvgComponent.Text

namespace SvgComponent.Jsx

open Text Markup

/-! ## Special characters in containers -/

theorem containSpecial_cons (c : Char) (s : List Char) :
    containSpecial (c :: s) = (if isSpecial c then container c else [c]) ++ containSpecial s :=
  List.flatMap_cons

theorem containSpecial_append (s t : List Char) :
    containSpecial (s ++ t) = containSpecial s ++ containSpecial t := List.flatMap_append

/-- The first character of a text comes first, by itself or in its container. -/
theorem head?_containSpecial {c : Char} {s : List Char} (h : (containSpecial s).head? = some c) :
    ∃ d, s.head? = some d ∧ (c = '\x7b' ∨ c = d ∧ isSpecial d = false) := by
  cases s with
  | nil => cases h
  | cons d s =>
    refine ⟨d, rfl, ?_⟩
    rw [containSpecial_cons] at h
    cases hd : isSpecial d with
    | true => exact .inl (by simpa [hd, container] using h.symm)
    | false => exact .inr ⟨by simpa [hd] using h.symm, rfl⟩

/-- The last character of a text comes last, by itself or in its container. -/
theorem getLast?_containSpecial {c : Char} {s : List Char}
    (h : (containSpecial s).getLast? = some c) :
    ∃ d, s.getLast? = some d ∧ (c = '\x7d' ∨ c = d ∧ isSpecial d = false) := by
  rcases List.eq_nil_or_concat s with rfl | ⟨s, d, rfl⟩
  · cases h
  · refine ⟨d, by simp, ?_⟩
    rw [List.concat_eq_append, containSpecial_append, containSpecial_cons] at h
    cases hd : isSpecial d with
    | true => exact .inl (by simpa [hd, container, containSpecial] using h.symm)
    | false => exact .inr ⟨by simpa [hd, containSpecial] using h.symm, rfl⟩

theorem mem_containSpecial {c : Char} {s : List Char} (h : c ∈ containSpecial s) :
    c ∈ ['\x7b', '"', '\x7d'] ∨ c ∈ s := by
  obtain ⟨d, hd, hc⟩ := List.mem_flatMap.1 h
  split at hc
  · simp only [container, List.mem_cons, List.not_mem_nil, or_false] at hc ⊢
    rcases hc with hc | hc | rfl | hc | hc <;> simp_all
  · rw [List.mem_singleton.1 hc]
    exact .inr hd

/-! ## Text among other nodes -/

/-- What text among other nodes is put together from. -/
theorem mixedText_cases (first last : Bool) (s : List Char) :
    mixedText first last s = [] ∨ mixedText first last s = container ' ' ∨
      ∃ a b : Bool, isBlankText s = false ∧ mixedText first last s =
        (if a then container ' ' else []) ++ escapeText s ++ (if b then container ' ' else []) := by
  rw [mixedText]
  split
  · split
    · exact .inr (.inl rfl)
    · exact .inl rfl
  · rename_i hs
    exact .inr (.inr ⟨_, _, by simpa using hs, rfl⟩)

theorem escapeText_eq_nil {s : List Char} : escapeText s = [] ↔ isBlankText s = true := by
  rw [← spaced_eq_nil, escapeText]
  cases spaced s with
  | nil => exact ⟨fun _ => rfl, fun _ => rfl⟩
  | cons c t =>
    rw [containSpecial_cons]
    split <;> simp [container]

theorem head?_escapeText {c : Char} {s : List Char} (h : (escapeText s).head? = some c) :
    c = '\x7b' ∨ isBlank c = false ∧ isSpecial c = false := by
  obtain ⟨d, hd, hc | ⟨rfl, hc⟩⟩ := head?_containSpecial h
  · exact .inl hc
  · exact .inr ⟨clear_spaced s c hd, hc⟩

theorem getLast?_escapeText {c : Char} {s : List Char} (h : (escapeText s).getLast? = some c) :
    c = '\x7d' ∨ isBlank c = false ∧ isSpecial c = false := by
  obtain ⟨d, hd, hc | ⟨rfl, hc⟩⟩ := getLast?_containSpecial h
  · exact .inl hc
  · exact .inr ⟨getLast?_spaced hd, hc⟩

theorem mem_escapeText {c : Char} {s : List Char} (h : c ∈ escapeText s) :
    c = ' ' ∨ isBlank c = false := by
  rcases mem_containSpecial h with h | h
  · exact .inr (forall_mem_of_all (p := (isBlank · = false)) (by decide) c h)
  · exact not_blank_of_mem_spaced h

/-- No blanks but spaces are written. -/
theorem mem_mixedText {c : Char} {first last : Bool} {s : List Char}
    (h : c ∈ mixedText first last s) : c = ' ' ∨ isBlank c = false := by
  have hsep : ∀ b : Bool, c ∈ (if b then container ' ' else []) → c = ' ' ∨ isBlank c = false := by
    intro b hc
    split at hc
    · exact forall_mem_of_all (p := fun c => c = ' ' ∨ isBlank c = false) (by decide) c hc
    · cases hc
  rcases mixedText_cases first last s with he | he | ⟨a, b, -, he⟩ <;> rw [he] at h
  · cases h
  · exact hsep true h
  · rcases List.mem_append.1 h with h | h
    · exact (List.mem_append.1 h).elim (hsep a) mem_escapeText
    · exact hsep b h

/-- **How text among other nodes starts**: with a container, or with a character for itself. -/
theorem head?_mixedText {c : Char} {first last : Bool} {s : List Char}
    (h : (mixedText first last s).head? = some c) :
    c = '\x7b' ∨ isBlank c = false ∧ isSpecial c = false := by
  rcases mixedText_cases first last s with he | he | ⟨a, b, hs, he⟩ <;> rw [he] at h
  · cases h
  · exact .inl (Option.some.inj h).symm
  · cases a with
    | true => exact .inl (Option.some.inj h).symm
    | false =>
      obtain ⟨d, t, ht⟩ := List.exists_cons_of_ne_nil fun hn => by
        rw [escapeText_eq_nil.1 hn] at hs
        cases hs
      refine head?_escapeText (s := s) ?_
      rw [ht] at h ⊢
      simpa using h

/-- **How text among other nodes ends**: with a container, or with a character for itself. -/
theorem getLast?_mixedText {c : Char} {first last : Bool} {s : List Char}
    (h : (mixedText first last s).getLast? = some c) :
    c = '\x7d' ∨ isBlank c = false ∧ isSpecial c = false := by
  rcases mixedText_cases first last s with he | he | ⟨a, b, hs, he⟩ <;> rw [he] at h
  · cases h
  · exact .inl (Option.some.inj h).symm
  · cases b with
    | true =>
      rw [if_pos rfl, List.getLast?_append_of_ne_nil _ (by simp [container])] at h
      exact .inl (Option.some.inj h).symm
    | false =>
      have hne : escapeText s ≠ [] := fun hn => by
        rw [escapeText_eq_nil.1 hn] at hs
        cases hs
      simp only [Bool.false_eq_true, if_false, List.append_nil] at h
      rw [List.getLast?_append_of_ne_nil _ hne] at h
      exact getLast?_escapeText h

/-- Whether an element has children that are not text, so that text among them is on lines of its
own. -/
def isMixed (e : Element) : Bool := !e.children.all isTextNode

/-- The lines that text makes among nodes; `first` says that no node stands before them. Text that has
nothing to show makes an empty one here. -/
def textLines (first : Bool) : List Node → List (List Char)
  | [] => []
  | .text s :: ns => mixedText first ns.isEmpty s :: textLines false ns
  | _ :: ns => textLines false ns

end SvgComponent.Jsx
