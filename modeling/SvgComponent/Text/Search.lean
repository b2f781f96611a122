/-!
# Looking for a pattern

`before? pat s` is the part of `s` before the first place where `pat` stands, if there is one.
-/

namespace SvgComponent.Text

/-- The part of a text before the first occurrence of `pat`, or `none` if `pat` does not occur. -/
def before? (pat : List Char) : List Char → Option (List Char)
  | [] => if pat.isEmpty then some [] else none
  | c :: s => if pat.isPrefixOf (c :: s) then some [] else (before? pat s).map (c :: ·)

/-- Whether `pat` occurs in a text. -/
def occursIn (pat s : List Char) : Bool := (before? pat s).isSome

theorem eq_of_before?_eq_some {pat s b : List Char} (h : before? pat s = some b) :
    ∃ rest, s = b ++ pat ++ rest := by
  induction s generalizing b with
  | nil =>
    by_cases hp : pat = []
    · simp [before?, hp] at h; exact ⟨[], by simp [h, hp]⟩
    · simp [before?, hp] at h
  | cons c s ih =>
    simp only [before?] at h
    split at h
    · rename_i hp
      cases h
      obtain ⟨r, hr⟩ := List.isPrefixOf_iff_prefix.1 hp
      exact ⟨r, by simp [hr]⟩
    · obtain ⟨b', hb, rfl⟩ := Option.map_eq_some_iff.1 h
      obtain ⟨r, hr⟩ := ih hb
      exact ⟨r, by simp [hr]⟩

end SvgComponent.Text
