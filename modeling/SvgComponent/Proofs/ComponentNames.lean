import SvgComponent.Files.Path
import SvgComponent.Proofs.RoundTrip

/-!
# Component names

The name that a component gets from its file can be used as an identifier, and the file that is written for a
component gives its name back.

* `IsComponentName`: an upper-case letter, then letters and digits, all of them ASCII.
* `isComponentName_componentNameOf`: every name that is made from the words of a stem is one.
* `map_toUpper_componentNameOf`: it spells the letters and digits of the stem.
* `stem_outputName`, `componentNameOf_self`: the stem of the file that is written for a component is its name,
  and that is a single word that is capitalised already.
-/

namespace SvgComponent.Files

open Text

/-- Names that a component can have: an upper-case letter, then letters and digits, all of them ASCII. -/
structure IsComponentName (name : List Char) : Prop where
  head : ∃ c s, name = c :: s ∧ c.isUpper = true
  alphanum : ∀ c ∈ name, c.isAlphanum = true

/-! ## Characters -/

theorem isAsciiDigit_eq (c : Char) : isAsciiDigit c = c.isDigit := by
  simp [isAsciiDigit, Char.isDigit, Char.le_def]

/-- The characters of words are the ASCII letters and digits. -/
theorem isAsciiLetter_or_isAsciiDigit (c : Char) :
    (isAsciiLetter c || isAsciiDigit c) = c.isAlphanum := by
  have hletter : isAsciiLetter c = c.isAlpha := by
    unfold isAsciiLetter Char.isAlpha Char.isUpper Char.isLower
    simp [Char.le_def, Bool.or_comm]
  rw [hletter, isAsciiDigit_eq, Char.isAlphanum]

theorem isLower_iff {c : Char} : c.isLower = true ↔ 97 ≤ c.toNat ∧ c.toNat ≤ 122 := by
  unfold Char.isLower
  simp [UInt32.le_iff_toNat_le]

theorem isUpper_iff {c : Char} : c.isUpper = true ↔ 65 ≤ c.toNat ∧ c.toNat ≤ 90 := by
  unfold Char.isUpper
  simp [UInt32.le_iff_toNat_le]

theorem isDigit_iff {c : Char} : c.isDigit = true ↔ 48 ≤ c.toNat ∧ c.toNat ≤ 57 := by
  unfold Char.isDigit
  simp [UInt32.le_iff_toNat_le]

theorem toUpper_of_not_isLower {c : Char} (h : ¬ c.isLower = true) : c.toUpper = c := by
  unfold Char.isLower at h
  unfold Char.toUpper
  simp only [Bool.and_eq_true, decide_eq_true_eq] at h
  rw [dif_neg h]

theorem toNat_toUpper_of_isLower {c : Char} (h : c.isLower = true) : c.toUpper.toNat = c.toNat - 32 := by
  have hcode := isLower_iff.1 h
  unfold Char.isLower at h
  unfold Char.toUpper
  simp only [Bool.and_eq_true, decide_eq_true_eq] at h
  rw [dif_pos h]
  simp only [Char.toNat, UInt32.toNat_add] at hcode ⊢
  have hstep : ('A'.val - 'a'.val).toNat = 2 ^ 32 - 32 := rfl
  omega

theorem isUpper_toUpper_of_isLower {c : Char} (h : c.isLower = true) : c.toUpper.isUpper = true := by
  have hcode := isLower_iff.1 h
  rw [isUpper_iff, toNat_toUpper_of_isLower h]
  omega

theorem not_isLower_of_isUpper {c : Char} (h : c.isUpper = true) : ¬ c.isLower = true := by
  rw [isUpper_iff] at h
  rw [isLower_iff]
  omega

theorem not_isLower_of_isDigit {c : Char} (h : c.isDigit = true) : ¬ c.isLower = true := by
  rw [isDigit_iff] at h
  rw [isLower_iff]
  omega

theorem not_isDigit_of_isUpper {c : Char} (h : c.isUpper = true) : c.isDigit = false := by
  rw [isUpper_iff] at h
  rw [Bool.eq_false_iff, ne_eq, isDigit_iff]
  omega

theorem upperAscii_eq (c : Char) : upperAscii c = c.toUpper := by
  have hlower : ('a' ≤ c && c ≤ 'z') = c.isLower := by
    unfold Char.isLower
    simp [Char.le_def]
  unfold upperAscii
  rw [hlower]
  split
  · rename_i h
    rw [← toNat_toUpper_of_isLower h, Char.ofNat_toNat]
  · rename_i h
    exact (toUpper_of_not_isLower h).symm

@[simp] theorem toUpper_toUpper (c : Char) : c.toUpper.toUpper = c.toUpper := by
  by_cases h : c.isLower = true
  · exact toUpper_of_not_isLower (not_isLower_of_isUpper (isUpper_toUpper_of_isLower h))
  · rw [toUpper_of_not_isLower h, toUpper_of_not_isLower h]

theorem isDigit_toUpper (c : Char) : c.toUpper.isDigit = c.isDigit := by
  by_cases h : c.isLower = true
  · have hd : c.isDigit = false := Bool.eq_false_iff.2 fun hd => not_isLower_of_isDigit hd h
    rw [not_isDigit_of_isUpper (isUpper_toUpper_of_isLower h), hd]
  · rw [toUpper_of_not_isLower h]

/-- A letter is capitalised, a digit stays. -/
theorem toUpper_of_isAlphanum {c : Char} (h : c.isAlphanum = true) :
    c.toUpper.isUpper = true ∨ c.isDigit = true ∧ c.toUpper = c := by
  unfold Char.isAlphanum Char.isAlpha at h
  rw [Bool.or_eq_true, Bool.or_eq_true] at h
  rcases h with (hu | hl) | hd
  · exact .inl (by rwa [toUpper_of_not_isLower (not_isLower_of_isUpper hu)])
  · exact .inl (isUpper_toUpper_of_isLower hl)
  · exact .inr ⟨hd, toUpper_of_not_isLower (not_isLower_of_isDigit hd)⟩

theorem isAlphanum_of_isUpper {c : Char} (h : c.isUpper = true) : c.isAlphanum = true := by
  unfold Char.isAlphanum Char.isAlpha
  rw [h, Bool.true_or, Bool.true_or]

theorem isAlphanum_toUpper {c : Char} (h : c.isAlphanum = true) : c.toUpper.isAlphanum = true := by
  rcases toUpper_of_isAlphanum h with hu | ⟨-, he⟩
  · exact isAlphanum_of_isUpper hu
  · rwa [he]

/-! ## Words -/

/-- A text all of whose characters are of the class is a single run. -/
theorem runs_of_all {p : Char → Bool} {s : List Char} (hne : s ≠ []) (hs : ∀ c ∈ s, p c = true) :
    runs p s = [s] := by
  have hstate : ∀ c s, (∀ d ∈ c :: s, p d = true) →
      (c :: s).foldr (runs.push p) (false, []) = (true, [c :: s]) := by
    intro c s
    induction s generalizing c with
    | nil =>
      intro h
      simp [runs.push, h c (by simp)]
    | cons d s ih =>
      intro h
      rw [List.foldr_cons, ih d (fun e he => h e (by simp [he]))]
      simp [runs.push, h c (by simp)]
  cases s with
  | nil => exact absurd rfl hne
  | cons c s => rw [runs, hstate c s hs]

/-- The words of a stem. -/
def stemWords (stem : List Char) : List (List Char) :=
  runs (fun c => isAsciiLetter c || isAsciiDigit c) stem

theorem stemWords_flatten (stem : List Char) :
    (stemWords stem).flatten = stem.filter Char.isAlphanum := by
  rw [stemWords, Jsx.flatten_runs]
  exact List.filter_congr fun c _ => isAsciiLetter_or_isAsciiDigit c

theorem isAlphanum_of_mem_stemWords {stem w : List Char} (hw : w ∈ stemWords stem) {c : Char} (hc : c ∈ w) :
    c.isAlphanum = true := by
  have h : c ∈ (stemWords stem).flatten := List.mem_flatten.2 ⟨w, hw, hc⟩
  rw [stemWords_flatten] at h
  exact (List.mem_filter.1 h).2

theorem isAlphanum_of_mem_capitalize {w : List Char} (hw : ∀ c ∈ w, c.isAlphanum = true) :
    ∀ c ∈ capitalize w, c.isAlphanum = true := by
  cases w with
  | nil => simp [capitalize]
  | cons d w =>
    intro c hc
    rw [capitalize, upperAscii_eq] at hc
    rcases List.mem_cons.1 hc with rfl | hc
    · exact isAlphanum_toUpper (hw d (by simp))
    · exact hw c (by simp [hc])

/-- Words that are put together start with an upper-case letter or a digit. -/
theorem head_flatMap_capitalize {ws : List (List Char)} (hws : ∀ w ∈ ws, ∀ c ∈ w, c.isAlphanum = true)
    {c : Char} {s : List Char} (h : ws.flatMap capitalize = c :: s) :
    c.isUpper = true ∨ c.isDigit = true := by
  induction ws with
  | nil => cases h
  | cons w ws ih =>
    rw [List.flatMap_cons] at h
    cases w with
    | nil => exact ih (fun w hw => hws w (by simp [hw])) h
    | cons d w =>
      rw [capitalize, upperAscii_eq, List.cons_append] at h
      obtain ⟨rfl, -⟩ := List.cons.inj h
      have hd : d.isAlphanum = true := hws (d :: w) (by simp) d (by simp)
      rcases toUpper_of_isAlphanum hd with hu | ⟨hd, he⟩
      · exact .inl hu
      · exact .inr (by rwa [he])

theorem map_toUpper_capitalize (w : List Char) : (capitalize w).map Char.toUpper = w.map Char.toUpper := by
  cases w with
  | nil => rfl
  | cons c w => simp [capitalize, upperAscii_eq]

theorem map_toUpper_flatMap_capitalize (ws : List (List Char)) :
    (ws.flatMap capitalize).map Char.toUpper = ws.flatten.map Char.toUpper := by
  induction ws with
  | nil => rfl
  | cons w ws ih => rw [List.flatMap_cons, List.map_append, map_toUpper_capitalize, ih, List.flatten_cons,
      List.map_append]

/-! ## Names from stems -/

theorem componentNameOf_of_nil {stem : List Char} (h : (stemWords stem).flatMap capitalize = []) :
    componentNameOf stem = defaultComponentName := by
  unfold stemWords at h
  simp only [componentNameOf, h]

theorem componentNameOf_of_cons {stem s : List Char} {c : Char}
    (h : (stemWords stem).flatMap capitalize = c :: s) :
    componentNameOf stem = (if c.isDigit then "Svg".toList else []) ++ c :: s := by
  unfold stemWords at h
  simp only [componentNameOf, h]
  rw [isAsciiDigit_eq]
  split <;> rfl

/-- **The name made from a stem can be used as an identifier.** -/
theorem isComponentName_componentNameOf (stem : List Char) : IsComponentName (componentNameOf stem) := by
  cases h : (stemWords stem).flatMap capitalize with
  | nil =>
    rw [componentNameOf_of_nil h]
    exact ⟨⟨'M', _, rfl, rfl⟩, forall_mem_of_all (by decide)⟩
  | cons c s =>
    have hall : ∀ d ∈ c :: s, d.isAlphanum = true := by
      intro d hd
      rw [← h] at hd
      obtain ⟨w, hw, hd⟩ := List.mem_flatMap.1 hd
      exact isAlphanum_of_mem_capitalize (fun e he => isAlphanum_of_mem_stemWords hw he) d hd
    have hhead := head_flatMap_capitalize (fun w hw d hd => isAlphanum_of_mem_stemWords hw hd) h
    rw [componentNameOf_of_cons h]
    split
    · refine ⟨⟨'S', _, rfl, rfl⟩, ?_⟩
      intro d hd
      rcases List.mem_append.1 hd with hd | hd
      · exact forall_mem_of_all (p := fun d => d.isAlphanum = true) (by decide) d hd
      · exact hall d hd
    · rename_i hdigit
      exact ⟨⟨c, s, rfl, hhead.resolve_right hdigit⟩, hall⟩

/-- The name spells the letters and digits of the stem, if it has any. -/
theorem map_toUpper_componentNameOf {stem s : List Char} {c : Char}
    (h : stem.filter Char.isAlphanum = c :: s) :
    (componentNameOf stem).map Char.toUpper =
      (if c.isDigit then "SVG".toList else []) ++ (c :: s).map Char.toUpper := by
  have hspelled := map_toUpper_flatMap_capitalize (stemWords stem)
  rw [stemWords_flatten, h] at hspelled
  cases hname : (stemWords stem).flatMap capitalize with
  | nil =>
    rw [hname] at hspelled
    cases hspelled
  | cons d t =>
    rw [hname] at hspelled
    -- the first character is capitalised at most, so both are digits or none is
    have hdigit : d.isDigit = c.isDigit := by
      obtain ⟨hhead, -⟩ := List.cons.inj hspelled
      rw [← isDigit_toUpper d, hhead, isDigit_toUpper c]
    rw [componentNameOf_of_cons hname, hdigit, List.map_append, hspelled]
    split <;> rfl

/-! ## Files of components -/

/-- A name that a component can have is a single word that is capitalised already. -/
theorem componentNameOf_self {name : List Char} (h : IsComponentName name) : componentNameOf name = name := by
  obtain ⟨⟨c, s, rfl, hc⟩, hall⟩ := h
  have hwords : stemWords (c :: s) = [c :: s] :=
    runs_of_all (by simp) fun d hd => by rw [isAsciiLetter_or_isAsciiDigit, hall d hd]
  have hcap : upperAscii c = c := by
    rw [upperAscii_eq, toUpper_of_not_isLower (not_isLower_of_isUpper hc)]
  have hname : (stemWords (c :: s)).flatMap capitalize = c :: s := by
    simp [hwords, capitalize, hcap]
  simp [componentNameOf_of_cons hname, not_isDigit_of_isUpper hc]

/-- A name with an extension behind it is the stem. -/
theorem stemOf_extension {name extension : List Char} (hn : name ≠ []) (he : extension ≠ [])
    (hdot : '.' ∉ extension) : stemOf (name ++ '.' :: extension) = name := by
  have hext : ((name ++ '.' :: extension).reverse.takeWhile (· != '.')).reverse = extension := by
    rw [List.reverse_append, List.reverse_cons, List.append_assoc, takeWhile_append_clear]
    · exact List.reverse_reverse _
    · intro c hc
      simp only [bne_iff_ne, ne_eq]
      rintro rfl
      exact hdot (List.mem_reverse.1 hc)
    · simp
  unfold stemOf
  simp only [hext]
  have hlen : (name ++ '.' :: extension).length - extension.length - 1 = name.length := by
    simp only [List.length_append, List.length_cons]
    omega
  rw [hlen, List.take_left]
  simp [hn, he]

/-- A file name without slashes is a path of one name. -/
theorem name_ofText {s : List Char} (hne : s ≠ []) (hdot : s ≠ ['.']) (hs : '/' ∉ s) :
    (Path.ofText s).name = s := by
  have hruns : runs (· != '/') s = [s] := by
    refine runs_of_all hne ?_
    intro c hc
    simp only [bne_iff_ne, ne_eq]
    rintro rfl
    exact hs hc
  simp [Path.ofText, Path.name, hruns, hdot]

/-- The stem of the file that is written for a component is its name. -/
theorem stem_outputName {name : List Char} (h : IsComponentName name) (typescript : Bool) :
    (Path.ofText (outputName name typescript)).stem = name := by
  obtain ⟨⟨c, s, rfl, hc⟩, hall⟩ := h
  have hslash : '/' ∉ c :: s := by
    intro hm
    exact absurd (hall _ hm) (by decide)
  obtain ⟨extension, hext, he, hdot, hslash'⟩ : ∃ extension : List Char,
      outputName (c :: s) typescript = (c :: s) ++ '.' :: extension ∧
        extension ≠ [] ∧ '.' ∉ extension ∧ '/' ∉ extension := by
    cases typescript
    · exact ⟨"jsx".toList, rfl, by decide, by decide, by decide⟩
    · exact ⟨"tsx".toList, rfl, by decide, by decide, by decide⟩
  rw [hext, Path.stem, name_ofText (by simp) (by simp) (by simp_all), stemOf_extension (by simp) he hdot]

/-- **Component names are valid and stable.** The name that a component gets from its file can be used as an
identifier and spells the letters and digits of the file's stem; and the file that is written for the component
gives the same name. -/
theorem componentName_stable (p : Path) :
    IsComponentName p.componentName ∧
      (∀ c s, p.stem.filter Char.isAlphanum = c :: s →
        p.componentName.map Char.toUpper =
          (if c.isDigit then "SVG".toList else []) ++ (c :: s).map Char.toUpper) ∧
      ∀ typescript,
        (Path.ofText (outputName p.componentName typescript)).componentName = p.componentName := by
  have hvalid : IsComponentName p.componentName := isComponentName_componentNameOf p.stem
  refine ⟨hvalid, fun c s h => map_toUpper_componentNameOf h, ?_⟩
  intro typescript
  rw [Path.componentName, stem_outputName hvalid, componentNameOf_self hvalid]

example : (Path.ofText "icons/24px_home.svg".toList).componentName = "Svg24pxHome".toList := by
  decide +kernel

end SvgComponent.Files
