import SvgComponent.Markup.Token

/-!
# Where a search in text stops

The reader takes characters of a class as long as they come (`takeWhile`, `dropWhile`) or looks for
a pattern (`before?`). The lemmas here say where it stops when what it reads is put together from
parts: `Clear p s` says that `s` starts with no character of the class `p`, so that a run of the class
in front of `s` ends at `s`.

* `takeWhile_append_clear`, `dropWhile_append_clear`: a run of a class ends at a clear text.
* `before?_append_char`, `before?_append_close`: a search ends at the closing mark, provided that the
  mark does not occur before.
* the last section has the facts about single characters that the steps of the reader need.
-/

namespace SvgComponent.Text

/-- A property of all characters of a text can be checked one by one. -/
theorem forall_mem_of_all {p : Char → Prop} [DecidablePred p] {s : List Char}
    (h : s.all (fun c => decide (p c)) = true) : ∀ c ∈ s, p c := by
  simpa using h

/-! ## Runs of a class -/

/-- `s` starts with no character of the class `p`. -/
def Clear (p : Char → Bool) (s : List Char) : Prop := ∀ c, s.head? = some c → p c = false

@[simp] theorem clear_nil (p : Char → Bool) : Clear p [] := by simp [Clear]

@[simp] theorem clear_cons (p : Char → Bool) (c : Char) (s : List Char) :
    Clear p (c :: s) ↔ p c = false := by simp [Clear]

theorem clear_dropWhile (p : Char → Bool) (s : List Char) : Clear p (s.dropWhile p) := by
  induction s with
  | nil => simp
  | cons c s ih => by_cases h : p c = true <;> simp_all

theorem Clear.takeWhile {p : Char → Bool} {s : List Char} (h : Clear p s) :
    s.takeWhile p = [] := by
  cases s <;> simp_all

theorem Clear.dropWhile {p : Char → Bool} {s : List Char} (h : Clear p s) : s.dropWhile p = s := by
  cases s <;> simp_all

/-- A text whose characters are all of another class is clear of `p`, and stays so in front of a
clear text. -/
theorem Clear.append {p : Char → Bool} {a s : List Char} (ha : ∀ c ∈ a, p c = false)
    (hs : Clear p s) : Clear p (a ++ s) := by
  cases a with
  | nil => exact hs
  | cons c a => simpa using ha c (by simp)

theorem takeWhile_append_clear {p : Char → Bool} {a s : List Char} (ha : ∀ c ∈ a, p c = true)
    (hs : Clear p s) : (a ++ s).takeWhile p = a := by
  rw [List.takeWhile_append_of_pos ha, hs.takeWhile, List.append_nil]

theorem dropWhile_append_clear {p : Char → Bool} {a s : List Char} (ha : ∀ c ∈ a, p c = true)
    (hs : Clear p s) : (a ++ s).dropWhile p = s := by
  rw [List.dropWhile_append_of_pos ha, hs.dropWhile]

theorem drop_length_takeWhile (p : Char → Bool) (s : List Char) :
    s.drop (s.takeWhile p).length = s.dropWhile p := by
  induction s with
  | nil => rfl
  | cons c s ih => by_cases h : p c = true <;> simp [h, ih]

/-! ## Closing marks -/

theorem before?_append_char {q : Char} {b : List Char} (hb : q ∉ b) (rest : List Char) :
    before? [q] (b ++ q :: rest) = some b := by
  induction b with
  | nil => simp [before?]
  | cons c b ih =>
    simp only [List.mem_cons, not_or] at hb
    simp [before?, hb.1, ih hb.2]

theorem before?_char_eq_none {q : Char} {s : List Char} : before? [q] s = none ↔ q ∉ s := by
  induction s with
  | nil => simp [before?]
  | cons c s ih => by_cases h : q = c <;> simp [before?, h, ih]

theorem before?_cons_eq_none {pat s : List Char} {c : Char} (h : before? pat (c :: s) = none) :
    ¬ pat <+: c :: s ∧ before? pat s = none := by
  simp only [before?, List.isPrefixOf_iff_prefix] at h
  split at h
  · cases h
  · rename_i hp
    exact ⟨hp, by simpa using h⟩

/-- A closing mark of the form `xxy`, such as that of a comment, is found where it stands: it cannot
start in the text before it and end in the mark. -/
theorem before?_append_close {x y : Char} (hxy : x ≠ y) {b : List Char}
    (hb : before? [x, x, y] b = none) (rest : List Char) :
    before? [x, x, y] (b ++ x :: x :: y :: rest) = some b := by
  induction b with
  | nil => simp [before?]
  | cons c b ih =>
    obtain ⟨hp, hb'⟩ := before?_cons_eq_none hb
    have hn : ¬ [x, x, y] <+: c :: (b ++ x :: x :: y :: rest) := by
      cases b with
      | nil => simp [Ne.symm hxy]
      | cons d b =>
        cases b with
        | nil => simp [Ne.symm hxy]
        | cons e b => simpa using hp
    simp [before?, hn, ih hb']

/-- What stands before the first place of a pattern does not hold the pattern. -/
theorem before?_eq_none_of_before? {pat s b : List Char} (h : before? pat s = some b)
    (hp : pat ≠ []) : before? pat b = none := by
  induction s generalizing b with
  | nil => simp [before?, hp] at h
  | cons c s ih =>
    simp only [before?, List.isPrefixOf_iff_prefix] at h
    split at h
    · cases h
      simp [before?, hp]
    · rename_i hn
      obtain ⟨b', hb', rfl⟩ := Option.map_eq_some_iff.1 h
      obtain ⟨rest, rfl⟩ := eq_of_before?_eq_some hb'
      have hnb : ¬ pat <+: c :: b' := fun hpre =>
        hn (by simpa using hpre.trans (List.prefix_append (c :: b') (pat ++ rest)))
      simp [before?, hnb, ih hb']

/-! ## Runs of blanks -/

theorem collapse_cons (c : Char) (s : List Char) :
    collapse (c :: s) =
      if isBlank c then (if (collapse s).head? = some ' ' then collapse s else ' ' :: collapse s)
      else c :: collapse s := by
  rw [collapse, List.foldr_cons]
  rfl

theorem collapse_cons_of_not_blank {c : Char} (hc : isBlank c = false) (s : List Char) :
    collapse (c :: s) = c :: collapse s := by
  rw [collapse_cons, if_neg (by simp [hc])]

/-- A run of blanks becomes one space. -/
theorem collapse_cons_of_blank {c : Char} (hc : isBlank c = true) (s : List Char) :
    collapse (c :: s) = ' ' :: collapse (s.dropWhile isBlank) := by
  induction s generalizing c with
  | nil =>
    rw [collapse_cons, if_pos hc]
    rfl
  | cons d s ih =>
    rw [collapse_cons, if_pos hc]
    by_cases hd : isBlank d = true
    · rw [List.dropWhile_cons_of_pos hd, ih hd]
      simp
    · rw [Bool.not_eq_true] at hd
      have hne : d ≠ ' ' := by
        rintro rfl
        cases hd
      rw [List.dropWhile_cons_of_neg (by simp [hd]), collapse_cons_of_not_blank hd]
      simp [hne]

/-- Text whose blanks are single spaces keeps them. -/
theorem collapse_eq_self {s : List Char} (hspace : ∀ c ∈ s, isBlank c = true → c = ' ')
    (hpair : ¬[' ', ' '] <:+: s) : collapse s = s := by
  induction s with
  | nil => rfl
  | cons c s ih =>
    rw [List.infix_cons_iff, not_or] at hpair
    have hrest := ih (fun d hd => hspace d (List.mem_cons_of_mem _ hd)) hpair.2
    cases hc : isBlank c with
    | false => rw [collapse_cons_of_not_blank hc, hrest]
    | true =>
      obtain rfl := hspace c List.mem_cons_self hc
      have hnot : s.head? ≠ some ' ' := by
        intro hs
        obtain ⟨t, rfl⟩ := List.head?_eq_some_iff.1 hs
        exact hpair.1 ⟨t, rfl⟩
      rw [collapse_cons, if_pos hc, hrest, if_neg hnot]

/-! ## Characters -/

/-- The characters that line breaks are made of. -/
def isBreak (c : Char) : Bool := c == '\n' || c == '\r'

/-- The code points of the blank characters. -/
def blankCodes : List Nat :=
  [9, 10, 11, 12, 13, 28, 29, 30, 31, 32, 0x85, 0xA0, 0x1680, 0x2000, 0x2001, 0x2002, 0x2003, 0x2004,
   0x2005, 0x2006, 0x2007, 0x2008, 0x2009, 0x200A, 0x2028, 0x2029, 0x202F, 0x205F, 0x3000]

theorem toNat_mem_blankCodes {c : Char} (h : isBlank c = true) : c.toNat ∈ blankCodes := by
  simp only [isBlank, Bool.or_eq_true, Bool.and_eq_true, decide_eq_true_eq, beq_iff_eq] at h
  simp only [blankCodes, List.mem_cons, List.not_mem_nil, or_false]
  omega

/-- What holds of every blank character by its code point holds of it. -/
theorem blank_rec {P : Char → Prop} (hP : ∀ n ∈ blankCodes, P (Char.ofNat n)) {c : Char}
    (h : isBlank c = true) : P c := by
  have := hP _ (toNat_mem_blankCodes h)
  rwa [Char.ofNat_toNat] at this

end SvgComponent.Text
