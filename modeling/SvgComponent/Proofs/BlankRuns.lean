import SvgComponent.Proofs.Text

/-!
# Changing runs of blanks

A `Respacing` leaves every character that is not blank and turns each run of blanks, whatever stands
around it, into a run of blanks. What the reader does with a text follows from where its marks stand, and
no mark holds a blank, so a search in the changed text finds what it finds in the text.

* `runs_induction`: induction on a text by its runs of blanks.
* `Respacing.replace`: one blank replaced by others.
* `Respacing.takeWhile`, `Respacing.dropUntil`, `Respacing.before?`: a search for what holds no blank
  stops at the same place.
-/

namespace SvgComponent.Text

/-- Induction on a text, by characters that are not blank and by whole runs of blanks. -/
@[elab_as_elim]
theorem runs_induction {motive : List Char → Prop} (nil : motive [])
    (blanks : ∀ a s, a ≠ [] → (∀ c ∈ a, isBlank c = true) → Clear isBlank s → motive s →
      motive (a ++ s))
    (solid : ∀ c s, isBlank c = false → motive s → motive (c :: s)) (s : List Char) : motive s := by
  induction hn : s.length using Nat.strongRecOn generalizing s with
  | ind n ih =>
    cases s with
    | nil => exact nil
    | cons c s =>
      by_cases hc : isBlank c = true
      · have hrun : c :: s = (c :: s.takeWhile isBlank) ++ s.dropWhile isBlank := by
          rw [List.cons_append, List.takeWhile_append_dropWhile]
        rw [hrun]
        refine blanks _ _ (by simp) ?_ (clear_dropWhile isBlank s) (ih _ ?_ _ rfl)
        · rw [List.forall_mem_cons]
          exact ⟨hc, List.all_eq_true.1 List.all_takeWhile⟩
        · have hle := (List.dropWhile_sublist (l := s) isBlank).length_le
          simp only [List.length_cons] at hn
          omega
      · refine solid c s (by simpa using hc) (ih _ ?_ _ rfl)
        simp only [List.length_cons] at hn
        omega

/-- A change of blanks only. -/
structure Respacing (f : List Char → List Char) : Prop where
  /-- A character that is not blank stays, and cuts the text. -/
  solid : ∀ {c}, isBlank c = false → ∀ s, f (c :: s) = c :: f s
  /-- A text can be changed in two parts if the second starts with no blank. -/
  append : ∀ {s}, Clear isBlank s → ∀ a, f (a ++ s) = f a ++ f s
  /-- A run of blanks becomes a run of blanks. -/
  blanks : ∀ {a}, a ≠ [] → (∀ c ∈ a, isBlank c = true) →
    f a ≠ [] ∧ ∀ c ∈ f a, isBlank c = true

namespace Respacing

variable {f : List Char → List Char}

/-- A blank replaced by blanks wherever it stands. -/
theorem replace {b : Char} (hb : isBlank b = true) {r : List Char} (hne : r ≠ [])
    (hr : ∀ c ∈ r, isBlank c = true) : Respacing (List.flatMap fun c => if c = b then r else [c]) where
  solid := by
    intro c hc s
    have hcb : c ≠ b := by
      rintro rfl
      rw [hb] at hc
      cases hc
    rw [List.flatMap_cons, if_neg hcb, List.singleton_append]
  append _ a := List.flatMap_append
  blanks := by
    intro a hane ha
    have hblanks : ∀ c, isBlank c = true →
        (if c = b then r else [c]) ≠ [] ∧ ∀ d ∈ (if c = b then r else [c]), isBlank d = true := by
      intro c hc
      split
      · exact ⟨hne, hr⟩
      · exact ⟨by simp, by simpa using hc⟩
    obtain ⟨c, a, rfl⟩ := List.exists_cons_of_ne_nil hane
    refine ⟨?_, ?_⟩
    · rw [List.flatMap_cons]
      intro h
      exact (hblanks c (ha c (by simp))).1 (List.append_eq_nil_iff.1 h).1
    · intro d hd
      obtain ⟨e, he, hde⟩ := List.mem_flatMap.1 hd
      exact (hblanks e (ha e he)).2 d hde

section
variable (hf : Respacing f)
include hf

theorem nil : f [] = [] := by
  have h := hf.append (clear_nil isBlank) []
  simpa using h

theorem clear {s : List Char} (h : Clear isBlank s) : Clear isBlank (f s) := by
  cases s with
  | nil =>
    rw [hf.nil]
    exact clear_nil _
  | cons c s =>
    rw [clear_cons] at h
    rw [hf.solid h, clear_cons]
    exact h

/-- Characters that are not blank stay, whatever stands behind them. -/
theorem of_not_blank {w : List Char} (h : ∀ c ∈ w, isBlank c = false) (s : List Char) :
    f (w ++ s) = w ++ f s := by
  induction w with
  | nil => rfl
  | cons c w ih =>
    rw [List.forall_mem_cons] at h
    rw [List.cons_append, hf.solid h.1, ih h.2, List.cons_append]

theorem append_char {c : Char} (hc : isBlank c = false) (a s : List Char) :
    f (a ++ c :: s) = f a ++ c :: f s := by
  rw [hf.append ((clear_cons _ _ _).2 hc), hf.solid hc]

theorem cons_of_blank {c : Char} (hc : isBlank c = true) (s : List Char) :
    ∃ d t, f (c :: s) = d :: t ∧ isBlank d = true := by
  have hrun : ∀ d ∈ c :: s.takeWhile isBlank, isBlank d = true := by
    rw [List.forall_mem_cons]
    exact ⟨hc, List.all_eq_true.1 List.all_takeWhile⟩
  obtain ⟨hne, hb⟩ := hf.blanks (by simp) hrun
  obtain ⟨d, t, ht⟩ := List.exists_cons_of_ne_nil hne
  refine ⟨d, t ++ f (s.dropWhile isBlank), ?_, hb d (by simp [ht])⟩
  rw [← List.cons_append, ← ht, ← hf.append (clear_dropWhile isBlank s), List.cons_append,
    List.takeWhile_append_dropWhile]

theorem eq_nil {s : List Char} : f s = [] ↔ s = [] := by
  constructor
  · intro h
    cases s with
    | nil => rfl
    | cons c s =>
      by_cases hc : isBlank c = true
      · obtain ⟨d, t, hdt, -⟩ := hf.cons_of_blank hc s
        rw [h] at hdt
        cases hdt
      · rw [hf.solid (by simpa using hc)] at h
        cases h
  · rintro rfl
    exact hf.nil

/-- Where the blanks that a text starts with end, those of the changed text end. -/
theorem dropBlanks (s : List Char) : (f s).dropWhile isBlank = f (s.dropWhile isBlank) := by
  induction s using runs_induction with
  | nil => simp [hf.nil]
  | blanks a s hne ha hs ih =>
    rw [hf.append hs, dropWhile_append_clear (hf.blanks hne ha).2 (hf.clear hs),
      dropWhile_append_clear ha hs]
  | solid c s hc ih =>
    rw [hf.solid hc, List.dropWhile_cons_of_neg (by simp [hc]), List.dropWhile_cons_of_neg (by simp [hc]),
      hf.solid hc]

theorem isBlankText (s : List Char) : Text.isBlankText (f s) = Text.isBlankText s := by
  induction s using runs_induction with
  | nil => rw [hf.nil]
  | blanks a s hne ha hs ih =>
    have hrun : a.all isBlank = (f a).all isBlank := by
      rw [List.all_eq_true.2 ha, List.all_eq_true.2 (hf.blanks hne ha).2]
    rw [hf.append hs, Text.isBlankText, List.all_append, ← hrun, Text.isBlankText, List.all_append]
    exact congrArg _ ih
  | solid c s hc ih => simp [hf.solid hc, Text.isBlankText, hc]

/-! ## Searches -/

theorem exists_of_eq_cons {c : Char} (hc : isBlank c = false) {s t : List Char} (h : f s = c :: t) :
    ∃ r, s = c :: r ∧ f r = t := by
  cases s with
  | nil =>
    rw [hf.nil] at h
    cases h
  | cons d s =>
    by_cases hd : isBlank d = true
    · obtain ⟨e, r, her, he⟩ := hf.cons_of_blank hd s
      rw [her] at h
      obtain ⟨rfl, -⟩ := List.cons.inj h
      rw [hc] at he
      cases he
    · rw [hf.solid (by simpa using hd)] at h
      obtain ⟨rfl, rfl⟩ := List.cons.inj h
      exact ⟨s, rfl, rfl⟩

theorem head? {c : Char} (hc : isBlank c = false) (s : List Char) :
    (f s).head? = some c ↔ s.head? = some c := by
  constructor
  · intro h
    obtain ⟨t, ht⟩ := List.head?_eq_some_iff.1 h
    obtain ⟨r, rfl, -⟩ := hf.exists_of_eq_cons hc ht
    rfl
  · intro h
    obtain ⟨t, rfl⟩ := List.head?_eq_some_iff.1 h
    rw [hf.solid hc]
    rfl

theorem isPrefix {pat : List Char} (hp : ∀ c ∈ pat, isBlank c = false) (s : List Char) :
    pat <+: f s ↔ pat <+: s := by
  induction pat generalizing s with
  | nil => simp
  | cons c pat ih =>
    rw [List.forall_mem_cons] at hp
    constructor
    · rintro ⟨t, ht⟩
      obtain ⟨r, rfl, hr⟩ := hf.exists_of_eq_cons hp.1 ht.symm
      rw [List.cons_prefix_cons, ← ih hp.2, hr]
      exact ⟨rfl, List.prefix_append pat t⟩
    · rintro ⟨t, rfl⟩
      rw [hf.of_not_blank (by simpa using hp)]
      exact List.prefix_append _ _

theorem mem {c : Char} (hc : isBlank c = false) (s : List Char) : c ∈ f s ↔ c ∈ s := by
  induction s using runs_induction with
  | nil => rw [hf.nil]
  | blanks a s hne ha hs ih =>
    have hout : ∀ {b : List Char}, (∀ d ∈ b, isBlank d = true) → c ∉ b := by
      intro b hb hcb
      rw [hb c hcb] at hc
      cases hc
    rw [hf.append hs, List.mem_append, List.mem_append, ih]
    simp [hout ha, hout (hf.blanks hne ha).2]
  | solid d s hd ih => rw [hf.solid hd, List.mem_cons, List.mem_cons, ih]

/-- A class without blanks: its runs are left as they are. -/
theorem takeWhile {p : Char → Bool} (hp : ∀ c, isBlank c = true → p c = false) (s : List Char) :
    (f s).takeWhile p = s.takeWhile p ∧ (f s).dropWhile p = f (s.dropWhile p) := by
  have hw : ∀ c ∈ s.takeWhile p, p c = true := List.all_eq_true.1 List.all_takeWhile
  have hnb : ∀ c ∈ s.takeWhile p, isBlank c = false := fun c hc => by
    cases hb : isBlank c with
    | false => rfl
    | true => exact absurd (hw c hc) (by simp [hp c hb])
  have hclear : Clear p (f (s.dropWhile p)) := by
    have hc := clear_dropWhile p s
    cases hr : s.dropWhile p with
    | nil => simp [hf.nil]
    | cons c r =>
      rw [hr, clear_cons] at hc
      by_cases hb : isBlank c = true
      · obtain ⟨d, t, hdt, hd⟩ := hf.cons_of_blank hb r
        rw [hdt, clear_cons]
        exact hp d hd
      · rw [hf.solid (by simpa using hb), clear_cons]
        exact hc
  have hs : f s = s.takeWhile p ++ f (s.dropWhile p) := by
    rw [← hf.of_not_blank hnb, List.takeWhile_append_dropWhile]
  rw [hs]
  exact ⟨takeWhile_append_clear hw hclear, dropWhile_append_clear hw hclear⟩

/-- The search for a character that is not blank stops at the same place. -/
theorem dropUntil {x : Char} (hx : isBlank x = false) (s : List Char) :
    (f s).takeWhile (· ≠ x) = f (s.takeWhile (· ≠ x)) ∧
      (f s).dropWhile (· ≠ x) = f (s.dropWhile (· ≠ x)) := by
  have hw : x ∉ s.takeWhile (· ≠ x) := fun hm => by
    simpa using List.all_eq_true.1 List.all_takeWhile x hm
  have hw' : ∀ c ∈ f (s.takeWhile (· ≠ x)), decide (c ≠ x) = true := by
    intro c hc
    rw [decide_eq_true_eq]
    rintro rfl
    exact hw ((hf.mem hx _).1 hc)
  -- what is left starts with `x`, if anything is left
  have hr : Clear isBlank (s.dropWhile (· ≠ x)) ∧
      Clear (fun c => decide (c ≠ x)) (f (s.dropWhile (· ≠ x))) := by
    have hc := clear_dropWhile (fun c => decide (c ≠ x)) s
    cases hd : s.dropWhile (· ≠ x) with
    | nil => simp [hf.nil]
    | cons c r =>
      rw [hd, clear_cons] at hc
      obtain rfl : c = x := by simpa using hc
      rw [hf.solid hx]
      exact ⟨(clear_cons _ _ _).2 hx, (clear_cons _ _ _).2 (by simp)⟩
  have hs : f s = f (s.takeWhile (· ≠ x)) ++ f (s.dropWhile (· ≠ x)) := by
    rw [← hf.append hr.1, List.takeWhile_append_dropWhile]
  rw [hs]
  exact ⟨takeWhile_append_clear hw' hr.2, dropWhile_append_clear hw' hr.2⟩

end

theorem before?_append_blanks {pat a : List Char} (hne : pat ≠ []) (hp : ∀ c ∈ pat, isBlank c = false)
    (ha : ∀ c ∈ a, isBlank c = true) (s : List Char) :
    Text.before? pat (a ++ s) = (Text.before? pat s).map (a ++ ·) := by
  induction a with
  | nil => simp
  | cons c a ih =>
    rw [List.forall_mem_cons] at ha
    have hn : ¬ pat <+: c :: (a ++ s) := by
      obtain ⟨d, pat, rfl⟩ := List.exists_cons_of_ne_nil hne
      rw [List.cons_prefix_cons]
      rintro ⟨rfl, -⟩
      rw [hp d (by simp)] at ha
      cases ha.1
    simp only [List.cons_append, Text.before?, List.isPrefixOf_iff_prefix, hn, if_false, ih ha.2,
      Option.map_map, Function.comp_def]

section
variable (hf : Respacing f) {pat : List Char} (hne : pat ≠ []) (hp : ∀ c ∈ pat, isBlank c = false)
include hf hne hp

/-- **The search for a mark without blanks finds it at the same place.** -/
theorem before? (s : List Char) :
    Text.before? pat (f s) = (Text.before? pat s).map f := by
  induction s using runs_induction with
  | nil => simp [hf.nil, Text.before?, hne]
  | blanks a s ha hab hs ih =>
    rw [hf.append hs, before?_append_blanks hne hp (hf.blanks ha hab).2, ih,
      before?_append_blanks hne hp hab, Option.map_map, Option.map_map]
    cases hb : Text.before? pat s with
    | none => rfl
    | some b =>
      -- what stands before the mark starts as the text does
      have hclear : Clear isBlank b := by
        obtain ⟨r, rfl⟩ := eq_of_before?_eq_some hb
        cases b with
        | nil => exact clear_nil _
        | cons d b => simpa using hs
      simp [hf.append hclear]
  | solid c s hc ih =>
    have hpre := hf.isPrefix hp (c :: s)
    rw [hf.solid hc] at hpre ⊢
    simp only [Text.before?, List.isPrefixOf_iff_prefix, hpre]
    split
    · simp [hf.nil]
    · rw [ih, Option.map_map, Option.map_map]
      congr 1
      funext b
      exact (hf.solid hc b).symm

/-- What stands behind the mark is changed too. -/
theorem drop_of_before? {s b : List Char} (h : Text.before? pat s = some b) :
    (f s).drop ((f b).length + pat.length) = f (s.drop (b.length + pat.length)) := by
  obtain ⟨r, rfl⟩ := eq_of_before?_eq_some h
  obtain ⟨c, pat, rfl⟩ := List.exists_cons_of_ne_nil hne
  have hs : f (b ++ c :: pat ++ r) = f b ++ c :: pat ++ f r := by
    rw [List.append_assoc, hf.append (by simpa using hp c (by simp)), hf.of_not_blank hp,
      List.append_assoc]
  rw [hs, ← List.length_append, ← List.length_append, List.drop_left, List.drop_left]

end

/-- Behind a mark of one character. -/
theorem drop_of_char (hf : Respacing f) {x : Char} (hx : isBlank x = false) {s b : List Char}
    (h : Text.before? [x] s = some b) :
    (f s).drop (f b).length = f (s.drop b.length) ∧
      (f s).drop ((f b).length + 1) = f (s.drop (b.length + 1)) := by
  refine ⟨?_, hf.drop_of_before? (by simp) (by simpa using hx) h⟩
  obtain ⟨r, rfl⟩ := eq_of_before?_eq_some h
  rw [List.append_assoc, List.singleton_append, hf.append_char hx, List.drop_left, List.drop_left,
    hf.solid hx]

/-! ## Collapsing -/

theorem collapse_append_blanks {a : List Char} (hne : a ≠ []) (ha : ∀ c ∈ a, isBlank c = true)
    {s : List Char} (hs : Clear isBlank s) : Text.collapse (a ++ s) = ' ' :: Text.collapse s := by
  obtain ⟨c, a, rfl⟩ := List.exists_cons_of_ne_nil hne
  rw [List.forall_mem_cons] at ha
  rw [List.cons_append, collapse_cons_of_blank ha.1, dropWhile_append_clear ha.2 hs]

theorem collapse (hf : Respacing f) (s : List Char) : Text.collapse (f s) = Text.collapse s := by
  induction s using runs_induction with
  | nil => rw [hf.nil]
  | blanks a s hne ha hs ih =>
    obtain ⟨hne', ha'⟩ := hf.blanks hne ha
    rw [hf.append hs, collapse_append_blanks hne' ha' (hf.clear hs), collapse_append_blanks hne ha hs, ih]
  | solid c s hc ih => rw [hf.solid hc, collapse_cons_of_not_blank hc, collapse_cons_of_not_blank hc, ih]

/-! ## Words -/

theorem foldr_push_blanks {a : List Char} (hne : a ≠ []) (ha : ∀ c ∈ a, isBlank c = true)
    (state : Bool × List (List Char)) : a.foldr (runs.push (!isBlank ·)) state = (false, state.2) := by
  induction a with
  | nil => exact absurd rfl hne
  | cons c a ih =>
    rw [List.forall_mem_cons] at ha
    rw [List.foldr_cons]
    cases a with
    | nil => simp [runs.push, ha.1]
    | cons d a => simp [ih (by simp) ha.2, runs.push, ha.1]

theorem words (hf : Respacing f) (s : List Char) : Text.words (f s) = Text.words s := by
  have hstate : (f s).foldr (runs.push (!isBlank ·)) (false, []) =
      s.foldr (runs.push (!isBlank ·)) (false, []) := by
    induction s using runs_induction with
    | nil => rw [hf.nil]
    | blanks a s hne ha hs ih =>
      obtain ⟨hne', ha'⟩ := hf.blanks hne ha
      rw [hf.append hs, List.foldr_append, List.foldr_append, foldr_push_blanks hne ha,
        foldr_push_blanks hne' ha', ih]
    | solid c s hc ih => rw [hf.solid hc, List.foldr_cons, List.foldr_cons, ih]
  exact congrArg Prod.snd hstate

end Respacing

end SvgComponent.Text
