import SvgComponent.Proofs.KeptCharacters
import SvgComponent.Proofs.SettledIndentation

/-!
# Indenting again

Indenting looks at the content of lines only, that is, at the lines without the blanks at their edges
(`indentLines_congr`), and it leaves that content as it is (`sameContent_indentLines`). So it takes every
earlier indentation back, whatever style that was in: what is indented a second time is the same as what is
indented only once, in the second style.

* `indentLine`, `levelBehind`: what becomes of one line, and the level it leads to.
* `Relaid`: lines with the same content, those without any being empty.
* `indent_relaid`: what indenting does to any source, and in which styles it can be done.
-/

namespace SvgComponent.Text

/-! ## Stripped text -/

theorem strip_append {a : List Char} (ha : ∀ c ∈ a, isBlank c = true) (s : List Char) :
    strip (a ++ s) = strip s := by
  rw [strip, stripStart, List.dropWhile_append_of_pos ha, strip, stripStart]

theorem strip_of_isBlankText {s : List Char} (h : isBlankText s = true) : strip s = [] := by
  have hs := strip_append (Markup.isBlankText_iff.1 h) []
  rwa [List.append_nil] at hs

/-! ## Words -/

/-- A blank ends the words before it. -/
theorem words_append_blank {b : Char} (hb : isBlank b = true) (a s : List Char) :
    words (a ++ b :: s) = words a ++ words s := by
  induction a with
  | nil => exact words_of_blank hb s
  | cons c a ih =>
    rw [List.cons_append]
    cases hc : isBlank c with
    | true => rw [words_of_blank hc, words_of_blank hc, ih]
    | false =>
      cases a with
      | nil =>
        rcases words_of_not_blank hc (b :: s) with ⟨hhead, -⟩ | ⟨-, h⟩
        · simp [hb] at hhead
        · rw [List.nil_append, h, words_of_blank hb]
          rcases words_of_not_blank hc [] with ⟨-, w, ws, hw, -⟩ | ⟨-, h⟩
          · cases hw
          · rw [h]
            rfl
      | cons d a =>
        -- whether `c` starts a word of its own is told by `d` on both sides
        rcases words_of_not_blank hc (d :: a) with ⟨hd, w, ws, hw, h⟩ | ⟨hd, h⟩ <;>
          rcases words_of_not_blank hc (d :: a ++ b :: s) with ⟨hd', w', ws', hw', h'⟩ | ⟨hd', h'⟩
        · rw [ih, hw, List.cons_append, List.cons.injEq] at hw'
          obtain ⟨rfl, rfl⟩ := hw'
          rw [h', h, List.cons_append]
        · simp_all
        · simp_all
        · rw [h', h, ih, List.cons_append]

theorem words_append_blanks {b : List Char} (hb : ∀ c ∈ b, isBlank c = true) (s : List Char) :
    words (s ++ b) = words s := by
  cases b with
  | nil => rw [List.append_nil]
  | cons c b =>
    rw [List.forall_mem_cons] at hb
    rw [words_append_blank hb.1, words_eq_nil.2 (Markup.isBlankText_iff.2 hb.2), List.append_nil]

theorem words_blanks_append {a : List Char} (ha : ∀ c ∈ a, isBlank c = true) (s : List Char) :
    words (a ++ s) = words s := by
  induction a with
  | nil => rfl
  | cons c a ih =>
    rw [List.forall_mem_cons] at ha
    rw [List.cons_append, words_of_blank ha.1, ih ha.2]

theorem words_strip (s : List Char) : words (strip s) = words s := by
  obtain ⟨a, b, hs, ha, hb⟩ := Source.exists_strip s
  conv_rhs => rw [hs, List.append_assoc, words_blanks_append ha, words_append_blanks hb]

theorem words_joinLines (ls : List (List Char)) : words (joinLines ls) = ls.flatMap words := by
  induction ls with
  | nil => rfl
  | cons l ls ih =>
    cases ls with
    | nil => simp [joinLines, List.intercalate]
    | cons m ls =>
      rw [Source.joinLines_cons_cons, words_append_blank (by decide), ih]
      rfl

theorem words_unifyBreaks (s : List Char) : words (unifyBreaks s) = words s := by
  have h := Source.respaced_unifyBreaks s
  rw [← respacing_squeeze.words (unifyBreaks s), h, respacing_squeeze.words]

/-! ## Lines -/

theorem mem_lines {s l : List Char} (hl : l ∈ lines s) {c : Char} (hc : c ∈ l) : c ∈ s ∧ c ≠ '\n' := by
  induction s generalizing l with
  | nil =>
    obtain rfl := List.mem_singleton.1 hl
    cases hc
  | cons d s ih =>
    obtain ⟨m, ls, hs⟩ := Source.exists_lines_eq s
    rw [hs] at ih
    have hlater : ∀ {k}, k ∈ m :: ls → c ∈ k → c ∈ d :: s ∧ c ≠ '\n' := fun hk hc =>
      ⟨List.mem_cons_of_mem _ (ih hk hc).1, (ih hk hc).2⟩
    rw [Source.lines_cons hs] at hl
    split at hl
    · rcases List.mem_cons.1 hl with rfl | hl
      · cases hc
      · exact hlater hl hc
    · rename_i hd
      rcases List.mem_cons.1 hl with rfl | hl
      · rcases List.mem_cons.1 hc with rfl | hc
        · exact ⟨List.mem_cons_self, hd⟩
        · exact hlater List.mem_cons_self hc
      · exact hlater (List.mem_cons_of_mem _ hl) hc

theorem return_not_mem_unifyBreaks (s : List Char) : '\r' ∉ unifyBreaks s := by
  rw [unifyBreaks]
  induction s with
  | nil => simp
  | cons c s ih =>
    rw [List.foldr_cons]
    generalize s.foldr unifyBreaks.push (false, []) = state at ih ⊢
    obtain ⟨fed, rest⟩ := state
    simp only [unifyBreaks.push]
    split
    · split
      · exact ih
      · simpa using ih
    · rename_i hc
      simpa [Ne.symm hc] using ih

end SvgComponent.Text

namespace SvgComponent.Source

open Text Jsx

/-! ## One line -/

/-- The level at which a line of this content stands, the lines before it leading to `level`. -/
def levelAt (level : Nat) (content : List Char) : Nat :=
  if closesBlock content then level - 1 else level

/-- The level that a line of this content leads to. -/
def levelBehind (level : Nat) (content : List Char) : Nat :=
  if content.isEmpty then level
  else if opensBlock content then levelAt level content + 1 else levelAt level content

/-- A line of this content, indented. -/
def indentLine (unit : List Char) (level : Nat) (content : List Char) : List Char :=
  if content.isEmpty then [] else (List.replicate (levelAt level content) unit).flatten ++ content

/-- **One line**: both the line and the level behind it are told from its content. -/
theorem indentLines_cons (unit : List Char) (level : Nat) (l : List Char) (ls : List (List Char)) :
    indentLines unit level (l :: ls) =
      indentLine unit level (strip l) :: indentLines unit (levelBehind level (strip l)) ls := by
  rw [indentLines]
  cases strip l <;> rfl

theorem mem_indentLine {unit content : List Char} {level : Nat} {c : Char}
    (h : c ∈ indentLine unit level content) : c ∈ unit ∨ c ∈ content := by
  rw [indentLine] at h
  split at h
  · cases h
  · rcases List.mem_append.1 h with h | h
    · obtain ⟨u, hu, hc⟩ := List.mem_flatten.1 h
      rw [List.eq_of_mem_replicate hu] at hc
      exact .inl hc
    · exact .inr h

theorem strip_indentLine {unit : List Char} (hu : ∀ c ∈ unit, isBlank c = true) (level : Nat)
    (l : List Char) : strip (indentLine unit level (strip l)) = strip l := by
  rw [indentLine]
  split
  · rename_i h
    rw [List.isEmpty_iff.1 h]
    rfl
  · rw [strip_append, strip_strip]
    intro c hc
    obtain ⟨u, hmem, hc⟩ := List.mem_flatten.1 hc
    rw [List.eq_of_mem_replicate hmem] at hc
    exact hu c hc

/-! ## All lines -/

/-- A line `l'` that stands for `l`: they have the same content, and it has no blanks if there is
none. -/
def SameContent (l l' : List Char) : Prop := strip l' = strip l ∧ (isBlankText l = true → l' = [])

/-- **Indenting leaves the content of every line as it is.** -/
theorem sameContent_indentLines {unit : List Char} (hu : ∀ c ∈ unit, isBlank c = true) (level : Nat)
    (ls : List (List Char)) : List.Forall₂ SameContent ls (indentLines unit level ls) := by
  induction ls generalizing level with
  | nil => exact .nil
  | cons l ls ih =>
    rw [indentLines_cons]
    refine .cons ⟨strip_indentLine hu level l, fun hl => ?_⟩ (ih _)
    rw [strip_of_isBlankText hl]
    rfl

theorem map_strip_eq {ls ms : List (List Char)} (h : List.Forall₂ SameContent ls ms) :
    ms.map strip = ls.map strip := by
  induction h with
  | nil => rfl
  | cons hl _ ih => rw [List.map_cons, List.map_cons, hl.1, ih]

/-- **Indenting looks at the content of lines only.** -/
theorem indentLines_congr (unit : List Char) {ls ms : List (List Char)}
    (h : ls.map strip = ms.map strip) (level : Nat) :
    indentLines unit level ls = indentLines unit level ms := by
  induction ls generalizing ms level with
  | nil =>
    obtain rfl := List.map_eq_nil_iff.1 h.symm
    rfl
  | cons l ls ih =>
    cases ms with
    | nil => cases h
    | cons m ms =>
      obtain ⟨hl, hls⟩ := List.cons.inj h
      rw [indentLines_cons, indentLines_cons, hl, ih hls]

theorem forall_mem_indentLines {p : Char → Prop} {unit : List Char} (hu : ∀ c ∈ unit, p c)
    {ls : List (List Char)} (hls : ∀ l ∈ ls, ∀ c ∈ l, p c) (level : Nat) :
    ∀ l ∈ indentLines unit level ls, ∀ c ∈ l, p c := by
  induction ls generalizing level with
  | nil => simp [indentLines]
  | cons l ls ih =>
    rw [List.forall_mem_cons] at hls
    rw [indentLines_cons, List.forall_mem_cons]
    refine ⟨fun c hc => ?_, ih hls.2 _⟩
    rcases mem_indentLine hc with hc | hc
    · exact hu c hc
    · exact hls.1 c (mem_of_mem_strip hc)

/-! ## Source -/

/-- `out` is `source` with other blanks at the edges of its lines: line by line they have the same content,
and blank lines are empty. -/
structure Relaid (source out : List Char) : Prop where
  lines : List.Forall₂ SameContent (lines (unifyBreaks source)) (lines out)
  words : words out = words source
  unified : '\r' ∉ out

section
variable {unit : List Char} (hu : ∀ c ∈ unit, isInline c = true) (source : List Char)
include hu

/-- The lines of indented source are the indented lines. -/
theorem lines_indentWith : '\r' ∉ indentWith unit source ∧
    Text.lines (indentWith unit source) = indentLines unit 0 (Text.lines (unifyBreaks source)) := by
  have hunbroken : ∀ l ∈ indentLines unit 0 (Text.lines (unifyBreaks source)), ∀ c ∈ l,
      c ≠ '\r' ∧ c ≠ '\n' := by
    refine forall_mem_indentLines (fun c hc => ?_) (fun l hl c hc => ?_) 0
    · have hinline := hu c hc
      constructor <;> rintro rfl <;> cases hinline
    · obtain ⟨hmem, hn⟩ := mem_lines hl hc
      refine ⟨?_, hn⟩
      rintro rfl
      exact return_not_mem_unifyBreaks source hmem
  refine ⟨not_mem_joinLines (by decide) fun l hl hc => (hunbroken l hl _ hc).1 rfl,
    lines_joinLines ?_ fun l hl hc => (hunbroken l hl _ hc).2 rfl⟩
  obtain ⟨l, ls, hls⟩ := exists_lines_eq (unifyBreaks source)
  rw [hls, indentLines_cons]
  exact List.cons_ne_nil _ _

theorem relaid_indentWith : Relaid source (indentWith unit source) := by
  obtain ⟨hreturn, hlines⟩ := lines_indentWith hu source
  have hsame := sameContent_indentLines (fun c hc => isBlank_of_isInline (hu c hc)) 0
    (Text.lines (unifyBreaks source))
  refine ⟨by rw [hlines]; exact hsame, ?_, hreturn⟩
  -- words are found line by line, and in the content of lines
  have hcontent : ∀ ls : List (List Char), ls.flatMap Text.words = (ls.map strip).flatMap Text.words := by
    intro ls
    rw [List.flatMap_map]
    exact List.flatMap_congr fun l _ => (words_strip l).symm
  calc Text.words (indentWith unit source)
      = (indentLines unit 0 (Text.lines (unifyBreaks source))).flatMap Text.words :=
        words_joinLines _
    _ = (Text.lines (unifyBreaks source)).flatMap Text.words := by
        rw [hcontent, map_strip_eq hsame, ← hcontent]
    _ = Text.words source := by
        rw [← words_joinLines, joinLines_lines, words_unifyBreaks]

/-- **Indenting takes earlier indentation back.** -/
theorem indentWith_indentWith (unit' : List Char) :
    indentWith unit' (indentWith unit source) = indentWith unit' source := by
  obtain ⟨hreturn, hlines⟩ := lines_indentWith hu source
  have hsame := sameContent_indentLines (fun c hc => isBlank_of_isInline (hu c hc)) 0
    (Text.lines (unifyBreaks source))
  rw [indentWith, unifyBreaks_of_not_mem hreturn, hlines, indentLines_congr unit' (map_strip_eq hsame),
    ← indentWith]

end

/-! ## Styles -/

/-- Styles in which a level can be written: a width has to be in the range of lengths. -/
def IndentStyle.Fits : IndentStyle → Prop
  | .tab => True
  | .spaces width => -Int.pow 2 63 ≤ width ∧ width < Int.pow 2 63

theorem IndentStyle.exists_unit {style : IndentStyle} (h : style.Fits) :
    ∃ unit, style.unit = .ok unit ∧ ∀ c ∈ unit, isInline c = true := by
  cases style with
  | tab => exact ⟨_, rfl, by simp [isInline]⟩
  | spaces width =>
    obtain ⟨hlow, hhigh⟩ := h
    refine ⟨List.replicate width.toNat ' ', ?_, fun c hc => ?_⟩
    · rw [IndentStyle.unit, if_neg (by omega)]
    · rw [List.eq_of_mem_replicate hc]
      rfl

theorem IndentStyle.unit_of_not_fits {style : IndentStyle} (h : ¬style.Fits) :
    style.unit = .error .widthOutOfRange := by
  cases style with
  | tab => exact absurd trivial h
  | spaces width =>
    rw [IndentStyle.unit]
    split
    · rfl
    · exact absurd ⟨by omega, by omega⟩ h

/-- **Indenting changes the blanks at the edges of lines only, and takes earlier indentation back**: what is
indented in any style and then in another one is the same as what is indented in the other one alone. That
is so in every style but those with a width beyond all lengths, in which no source can be indented. -/
theorem indent_relaid (style : IndentStyle) (source : List Char) :
    style.Fits ∧ (∃ out, indent style source = .ok out ∧ Relaid source out ∧
        ∀ later : IndentStyle, indent later out = indent later source) ∨
      ¬style.Fits ∧ ∀ s, indent style s = .error .widthOutOfRange := by
  by_cases h : style.Fits
  · obtain ⟨unit, hunit, hinline⟩ := style.exists_unit h
    refine .inl ⟨h, indentWith unit source, by rw [indent, hunit]; rfl,
      relaid_indentWith hinline source, fun later => ?_⟩
    rw [indent, indent]
    cases later.unit with
    | error e => rfl
    | ok unit' => exact congrArg Except.ok (indentWith_indentWith hinline source unit')
  · refine .inr ⟨h, fun s => ?_⟩
    rw [indent, IndentStyle.unit_of_not_fits h]
    rfl

/-- A width beyond all lengths of texts is no style to indent in, so that nothing can be indented again. -/
theorem indent_indent_beyond :
    (indent (.spaces (Int.pow 2 63)) "a".toList).bind (indent (.spaces 2)) ≠
      indent (.spaces 2) "a".toList := by
  decide +kernel

end SvgComponent.Source
