import SvgComponent.Proofs.ComponentSource
import SvgComponent.Proofs.Respacing

/-!
# Indenting, and conversion to indented source

Indenting changes the blanks around line breaks only (`respaced_indentWith`), and these do not matter
to the reader, so what is read from the source of a component is read from the indented source too, with
values that differ in blanks at most. With text it is the same, as the containers that stand for
characters hold no line break (`Spells.squash_decode`). Together with what is known of generated source
this says what becomes of a document when it is converted and read again (`parse_convert_indented`).
-/

namespace SvgComponent.Source

open Text Jsx

/-! ## Lines -/

theorem exists_lines_eq (s : List Char) : ∃ l ls, Text.lines s = l :: ls := by
  cases s with
  | nil => exact ⟨_, _, rfl⟩
  | cons c s =>
    rw [Text.lines, List.foldr_cons]
    split
    · exact ⟨_, _, rfl⟩
    · split <;> exact ⟨_, _, rfl⟩

theorem joinLines_cons_cons (l m : List Char) (ls : List (List Char)) :
    joinLines (l :: m :: ls) = l ++ '\n' :: joinLines (m :: ls) := by
  rw [joinLines_cons, block_eq_joinLines (by simp)]

theorem lines_cons {s l : List Char} {ls : List (List Char)} (h : Text.lines s = l :: ls) (c : Char) :
    Text.lines (c :: s) = if c = '\n' then [] :: l :: ls else (c :: l) :: ls := by
  rw [← h]
  simp only [Text.lines, List.foldr_cons] at h ⊢
  rw [h]

theorem joinLines_lines (s : List Char) : joinLines (Text.lines s) = s := by
  induction s with
  | nil => rfl
  | cons c s ih =>
    obtain ⟨l, ls, h⟩ := exists_lines_eq s
    rw [h] at ih
    rw [lines_cons h]
    split
    · rename_i hc
      rw [joinLines_cons_cons, ih, hc]
      rfl
    · rw [joinLines_cons] at ih ⊢
      rw [List.cons_append, ih]

theorem clear_lines {s l : List Char} {ls : List (List Char)} (h : Text.lines s = l :: ls)
    (hs : Clear isBlank s) (hne : s ≠ []) : Clear isBlank l ∧ l ≠ [] := by
  rw [← joinLines_lines s, h, joinLines_cons] at hs hne
  cases l with
  | cons c l => exact ⟨by simpa using hs, by simp⟩
  | nil =>
    cases ls with
    | nil => exact absurd rfl hne
    | cons m ls =>
      rw [List.nil_append, block, List.flatMap_cons, List.cons_append, clear_cons] at hs
      cases hs

/-! ## Line breaks -/

theorem squeeze_break {s : List Char} : squeeze ('\n' :: s) = '\n' :: squeeze (s.dropWhile isBlank) := by
  rw [squeeze_cons, squeeze.push, if_pos (by decide), dropWhile_squeeze]

/-- Blanks behind a line feed do not matter. -/
theorem respaced_blanks_behind {a : List Char} (ha : ∀ c ∈ a, isBlank c = true) (s : List Char) :
    Respaced ('\n' :: (a ++ s)) ('\n' :: s) := by
  rw [Respaced, squeeze_break, squeeze_break, List.dropWhile_append_of_pos ha]

/-- Blanks before a line feed do not matter. -/
theorem respaced_blanks_before {a : List Char} (ha : ∀ c ∈ a, isBlank c = true) (s : List Char) :
    Respaced (a ++ '\n' :: s) ('\n' :: s) := by
  induction a with
  | nil => rfl
  | cons c a ih =>
    simp only [List.mem_cons, forall_eq_or_imp] at ha
    have hclear := (clear_dropWhile isBlank s)
    rw [Respaced, List.cons_append, squeeze_cons, ih ha.2, squeeze_break, squeeze.push]
    split
    · rw [List.dropWhile_cons_of_pos (by decide), (clear_squeeze hclear).dropWhile]
    · simp [ha.1]

theorem respaced_unifyBreaks (s : List Char) : Respaced (unifyBreaks s) s := by
  have hstate : squeeze (s.foldr unifyBreaks.push (false, [])).2 = squeeze s ∧
      ((s.foldr unifyBreaks.push (false, [])).1 = true →
        (s.foldr unifyBreaks.push (false, [])).2.head? = some '\n') := by
    induction s with
    | nil => simp
    | cons c s ih =>
      rw [List.foldr_cons]
      generalize s.foldr unifyBreaks.push (false, []) = state at ih ⊢
      obtain ⟨fed, rest⟩ := state
      simp only [unifyBreaks.push]
      split
      · rename_i hc
        refine ⟨?_, by simp⟩
        subst hc
        have hpush : ∀ t, squeeze.push '\r' t = '\n' :: t.dropWhile isBlank := fun _ => rfl
        rw [squeeze_cons, ← ih.1, hpush]
        simp only at ih ⊢
        split
        · rename_i hfed
          obtain ⟨t, rfl⟩ := List.head?_eq_some_iff.1 (ih.2 hfed)
          rw [squeeze_break, List.dropWhile_cons_of_pos (by decide),
            (clear_squeeze (clear_dropWhile isBlank t)).dropWhile]
        · rw [squeeze_break, dropWhile_squeeze]
      · refine ⟨?_, by simp⟩
        rw [squeeze_cons, ih.1, squeeze_cons]
  exact hstate.1

/-! ## Indenting -/

theorem exists_stripEnd (s : List Char) :
    ∃ b, s = stripEnd s ++ b ∧ ∀ c ∈ b, isBlank c = true := by
  induction s with
  | nil => exact ⟨[], rfl, by simp⟩
  | cons c s ih =>
    obtain ⟨b, hs, hb⟩ := ih
    rw [stripEnd_cons]
    split
    · rename_i h
      simp only [Bool.and_eq_true, List.isEmpty_iff] at h
      rw [h.1, List.nil_append] at hs
      refine ⟨c :: b, by rw [← hs]; rfl, ?_⟩
      simpa using ⟨h.2, hb⟩
    · exact ⟨b, by rw [List.cons_append, ← hs], hb⟩

/-- A line is its content between blanks. -/
theorem exists_strip (l : List Char) :
    ∃ a b, l = a ++ strip l ++ b ∧ (∀ c ∈ a, isBlank c = true) ∧ ∀ c ∈ b, isBlank c = true := by
  obtain ⟨b, hs, hb⟩ := exists_stripEnd (stripStart l)
  refine ⟨l.takeWhile isBlank, b, ?_, List.all_eq_true.1 List.all_takeWhile, hb⟩
  rw [List.append_assoc, strip, ← hs, stripStart, List.takeWhile_append_dropWhile]

/-- An indented line is its content behind blanks, of which the outermost level has none. -/
theorem exists_indentLines {unit : List Char} (hu : ∀ c ∈ unit, isBlank c = true) (level : Nat)
    (l : List Char) (ls : List (List Char)) :
    ∃ a level', indentLines unit level (l :: ls) = (a ++ strip l) :: indentLines unit level' ls ∧
      (∀ c ∈ a, isBlank c = true) ∧ (level = 0 → a = []) := by
  rw [indentLines]
  split
  · rename_i h
    exact ⟨[], level, by rw [h]; rfl, by simp, fun _ => rfl⟩
  · refine ⟨_, _, rfl, fun c hc => ?_, ?_⟩
    · obtain ⟨u, hmem, hc⟩ := List.mem_flatten.1 hc
      exact hu c (List.eq_of_mem_replicate hmem ▸ hc)
    · rintro rfl
      simp

/-- **Indenting lines changes the blanks around line breaks only.** -/
theorem respaced_indentLines {unit : List Char} (hu : ∀ c ∈ unit, isBlank c = true) :
    ∀ (ls : List (List Char)) (level : Nat), ls ≠ [] →
      (∀ d, (joinLines ls).getLast? = some d → isBlank d = false) →
      Respaced ('\n' :: joinLines (indentLines unit level ls)) ('\n' :: joinLines ls)
  | [], _, hne, _ => absurd rfl hne
  | [l], level, _, hlast => by
    obtain ⟨a, b, hl, ha, hb⟩ := exists_strip l
    obtain ⟨a', level', hi, ha', -⟩ := exists_indentLines hu level l []
    have hbnil : b = [] := by
      rcases List.eq_nil_or_concat b with h | ⟨b, d, rfl⟩
      · exact h
      · have hd := hlast d (by rw [joinLines_cons, block_nil, List.append_nil, hl]; simp)
        rw [hb d (by simp)] at hd
        cases hd
    rw [hi, indentLines, joinLines_cons, joinLines_cons, block_nil, List.append_nil, List.append_nil]
    rw [hbnil, List.append_nil] at hl
    have hright := respaced_blanks_behind ha (strip l)
    rw [← hl] at hright
    exact (respaced_blanks_behind ha' (strip l)).trans hright.symm
  | l :: m :: ls, level, _, hlast => by
    obtain ⟨a, b, hl, ha, hb⟩ := exists_strip l
    obtain ⟨a', level', hi, ha', -⟩ := exists_indentLines hu level l (m :: ls)
    obtain ⟨a'', level'', hi', -, -⟩ := exists_indentLines hu level' m ls
    have ih := respaced_indentLines hu (m :: ls) level' (by simp) fun d hd => by
      refine hlast d ?_
      rw [joinLines_cons_cons, List.getLast?_append, List.getLast?_cons, hd]
      rfl
    rw [hi'] at ih
    rw [hi, hi', joinLines_cons_cons, joinLines_cons_cons l]
    generalize joinLines (_ :: indentLines unit level'' ls) = inner' at ih ⊢
    generalize joinLines (m :: ls) = inner at ih ⊢
    have hfront := respaced_blanks_behind ha' (strip l ++ '\n' :: inner')
    have hinner : Respaced ('\n' :: strip l ++ '\n' :: inner') ('\n' :: strip l ++ '\n' :: inner) :=
      squeeze_congr rfl ih
    have hback : Respaced ('\n' :: strip l ++ (b ++ '\n' :: inner))
        ('\n' :: strip l ++ '\n' :: inner) := squeeze_congr rfl (respaced_blanks_before hb inner)
    have hline := respaced_blanks_behind ha (strip l ++ (b ++ '\n' :: inner))
    rw [← List.append_assoc a, ← List.append_assoc, ← hl] at hline
    rw [List.append_assoc]
    exact hfront.trans (hinner.trans (hback.symm.trans hline.symm))

theorem getLast?_unifyBreaks {s : List Char} {c : Char} (h : s.getLast? = some c)
    (hc : isBlank c = false) : (unifyBreaks s).getLast? = some c := by
  obtain ⟨t, rfl⟩ := List.getLast?_eq_some_iff.1 h
  have hr : c ≠ '\r' := by
    rintro rfl
    cases hc
  have hpush : ∀ t : List Char, ∀ state : Bool × List Char, state.2.getLast? = some c →
      (t.foldr unifyBreaks.push state).2.getLast? = some c := by
    intro t state hstate
    induction t with
    | nil => exact hstate
    | cons d t ih =>
      rw [List.foldr_cons]
      generalize t.foldr unifyBreaks.push state = inner at ih ⊢
      obtain ⟨fed, rest⟩ := inner
      simp only at ih
      simp only [unifyBreaks.push]
      split
      · split
        · exact ih
        · rw [List.getLast?_cons, ih]
          rfl
      · rw [List.getLast?_cons, ih]
        rfl
  rw [unifyBreaks, List.foldr_append]
  exact hpush t _ (by simp [unifyBreaks.push, hr])

theorem clear_unifyBreaks {s : List Char} (h : Clear isBlank s) : Clear isBlank (unifyBreaks s) := by
  cases s with
  | nil => exact h
  | cons c s =>
    rw [clear_cons] at h
    have hr : c ≠ '\r' := by
      rintro rfl
      cases h
    simp only [unifyBreaks, List.foldr_cons, unifyBreaks.push, hr, if_false]
    exact (clear_cons _ _ _).2 h

/-- **Indenting source changes the blanks around line breaks only**, if no blanks stand at its
edges. -/
theorem respaced_indentWith {unit source : List Char} (hu : ∀ c ∈ unit, isBlank c = true)
    (hstart : Clear isBlank source) {c : Char} (hend : source.getLast? = some c)
    (hc : isBlank c = false) : Respaced (indentWith unit source) source := by
  have hunify := respaced_unifyBreaks source
  have hlast := getLast?_unifyBreaks hend hc
  have hclear := clear_unifyBreaks hstart
  rw [indentWith]
  generalize unifyBreaks source = text at hunify hlast hclear ⊢
  refine Eq.trans ?_ hunify
  obtain ⟨l, ls, hls⟩ := exists_lines_eq text
  have hmain := respaced_indentLines hu (Text.lines text) 0 (by simp [hls]) fun d hd => by
    rw [joinLines_lines, hlast] at hd
    obtain rfl := Option.some.inj hd
    exact hc
  rw [joinLines_lines] at hmain
  have hindented : Clear isBlank (joinLines (indentLines unit 0 (Text.lines text))) := by
    obtain ⟨a, level', hi, -, ha⟩ := exists_indentLines hu 0 l ls
    obtain ⟨hl, hne⟩ := clear_lines hls hclear (by rintro rfl; cases hlast)
    obtain ⟨d, l, rfl⟩ := List.exists_cons_of_ne_nil hne
    rw [clear_cons] at hl
    rw [hls, hi, ha rfl, List.nil_append, joinLines_cons, strip, stripStart,
      List.dropWhile_cons_of_neg (by simp [hl]), stripEnd_cons, hl, Bool.and_false, if_neg (by simp),
      List.cons_append, clear_cons]
    exact hl
  rw [Respaced, squeeze_break, squeeze_break, hindented.dropWhile, hclear.dropWhile] at hmain
  exact (List.cons.inj hmain).2

end SvgComponent.Source

namespace SvgComponent.Jsx

open Text

/-! ## Text in containers -/

theorem squash_cons (c : Char) (s : List Char) :
    squash (c :: s) = if isBlank c then squash s else c :: squash s := by
  cases h : isBlank c <;> simp [squash, h]

theorem squash_decode_dropBlanks (s : List Char) :
    squash (decode (s.dropWhile isBlank)) = squash (decode s) := by
  induction s with
  | nil => rfl
  | cons c s ih =>
    by_cases hc : isBlank c = true
    · have hne : c ≠ '\x7b' := by
        rintro rfl
        cases hc
      rw [List.dropWhile_cons_of_pos hc, ih, decode_cons hne, squash_cons, if_pos hc]
    · rw [List.dropWhile_cons_of_neg hc]

/-- **Spelled text says the same when its lines are broken in another way.** The text may start with
other blanks, which is what the induction needs. -/
theorem Spells.squash_decode {a x : List Char} (h : Spells a x) :
    ∀ {b : List Char}, Respaced (b.dropWhile isBlank) (a.dropWhile isBlank) →
      squash (decode b) = squash x := by
  induction h with
  | nil =>
    intro b hb
    rw [← squash_decode_dropBlanks, squeeze_eq_nil.1 hb]
    rfl
  | @char c a x hne h ih =>
    intro b hb
    by_cases hc : isBlank c = true
    · rw [List.dropWhile_cons_of_pos hc] at hb
      rw [ih hb, squash_cons, if_pos hc]
    · rw [List.dropWhile_cons_of_neg hc] at hb
      rw [Bool.not_eq_true] at hc
      rw [Respaced, squeeze_cons_of_not_blank hc] at hb
      obtain ⟨r, hr, hra⟩ := exists_of_squeeze_eq_cons (not_isBreak_of_not_blank hc) hb
      have hrest : Respaced (r.dropWhile isBlank) (a.dropWhile isBlank) := by
        rw [Respaced, ← dropWhile_squeeze, hra, dropWhile_squeeze]
      rw [← squash_decode_dropBlanks, hr, decode_cons hne, squash_cons, ih hrest, squash_cons]
  | @contained c a x hc h ih =>
    intro b hb
    have hquote : isBlank '"' = false := by decide
    have hclose : isBlank '\x7d' = false := by decide
    have hinner : squeeze (c :: '"' :: '\x7d' :: a) = c :: '"' :: '\x7d' :: squeeze a := by
      rw [squeeze_cons, squeeze_cons_of_not_blank hquote, squeeze_cons_of_not_blank hclose,
        squeeze.push, if_neg (by simp [hc]), if_neg (by simp)]
    rw [List.dropWhile_cons_of_neg (by decide), Respaced, squeeze_cons_of_not_blank (by decide),
      squeeze_cons_of_not_blank hquote, hinner] at hb
    obtain ⟨r₁, h₁, hb₁⟩ := exists_of_squeeze_eq_cons (by decide) hb
    obtain ⟨r₂, rfl, hb₂⟩ := exists_of_squeeze_eq_cons (by decide) hb₁
    obtain ⟨r₃, rfl, hb₃⟩ := exists_of_squeeze_eq_cons hc hb₂
    obtain ⟨r₄, rfl, hb₄⟩ := exists_of_squeeze_eq_cons (by decide) hb₃
    obtain ⟨r, rfl, hra⟩ := exists_of_squeeze_eq_cons (by decide) hb₄
    have hrest : Respaced (r.dropWhile isBlank) (a.dropWhile isBlank) := by
      rw [Respaced, ← dropWhile_squeeze, hra, dropWhile_squeeze]
    rw [← squash_decode_dropBlanks, h₁, decode, squash_cons, ih hrest, squash_cons]

theorem Shows.squash_decode {a b t : List Char} (h : Shows a t) (hb : Respaced b a) :
    squash (decode b) = squash t := by
  obtain ⟨x, hx, hs⟩ := h
  rw [hx.squash_decode, hs]
  rw [Respaced, ← dropWhile_squeeze, hb, dropWhile_squeeze]

end SvgComponent.Jsx

namespace SvgComponent

open Text Markup Jsx Settings Component Tool

/-! ## Conversion to indented source -/

theorem isBlank_of_mem_unit {style : Source.IndentStyle} {unit : List Char}
    (h : style.unit = .ok unit) : ∀ c ∈ unit, isBlank c = true := by
  cases style with
  | tab =>
    cases h
    exact forall_mem_of_all (by decide)
  | spaces width =>
    simp only [Source.IndentStyle.unit] at h
    split at h
    · cases h
    · cases h
      intro c hc
      rw [List.eq_of_mem_replicate hc]
      decide

/-- What is read from indented source is read from the source, with other blanks in values at most. -/
theorem parse_indentWith {root : Element} {name : List Char} {o : Options} {unit : List Char}
    (hu : ∀ c ∈ unit, isBlank c = true) {back : Element} {expected : Outline}
    (hb : parse (sourceText root name o) = .ok back) (ha : back.outline.Alike Eq Shows expected) :
    ∃ back, parse (Source.indentWith unit (sourceText root name o)) = .ok back ∧
      back.outline.Alike (fun a b => collapse a = collapse b)
        (fun a b => squash (decode a) = squash b) expected := by
  have hr := Source.respaced_indentWith hu (clear_sourceText root name o)
    (getLast?_sourceText root name o) (by decide)
  have hparse := parse_respaced hr
  rw [hb] at hparse
  cases hi : parse (Source.indentWith unit (sourceText root name o)) with
  | error e => rw [hi] at hparse; exact hparse.elim
  | ok back' =>
    rw [hi] at hparse
    have halike : back'.outline.Alike Respaced Respaced back.outline := hparse
    refine ⟨back', rfl, halike.trans ?_ ?_ ha⟩
    · rintro a b c hab rfl
      exact hab.collapse_eq
    · exact fun a b c hab hbc => hbc.squash_decode hab

variable {m : Type → Type} [Monad m] [LawfulMonad m]

/-- **What becomes of a document that is converted to indented source.** If the indentation cannot be
made, the conversion crashes. Else it yields source from which a tree can be read, and that is the
adapted tree of the document, with the part that passes properties on as one more attribute of the root if
the options ask for it: the same elements, tags and attribute names in the same order, values that differ
in runs of blanks at most, and, below each element, text that differs in blanks at most once its
containers are undone. -/
theorem parse_convert_indented (tools : Tools m) {svg name : String} {o : Options} {root : Element}
    (hminify : o.minify = false) (hoptimize : o.optimizeSvg = false)
    (hformat : o.useFormatter = false) (hname : '<' ∉ name.toList)
    (hexport : ∀ e, o.exportName = some e → '<' ∉ e.toList) (hp : parse svg.toList = .ok root)
    (hc : root.node.allComments (fun _ => false) = true) :
    match (indentStyle o.formatter).unit with
    | .error e => convert tools svg name o = pure (.error (.indentation e))
    | .ok _ => ∃ source back,
      (convert tools svg name o = do
        tools.note ⟨.debug, .conversion, "Converted " ++ name ++ " (0 warning(s))"⟩
        return .ok { componentName := name, source := some source }) ∧
      parse source.toList = .ok back ∧
      back.outline.Alike (fun a b => collapse a = collapse b)
        (fun a b => squash (decode a) = squash b)
        (withSpread (adapt root o.removeIds) o).outline := by
  have hfinish : ∀ source, finish tools o source = pure ⟨[], indented o source⟩ := by
    simp [finish, hminify, hformat]
  have hconvert := convert_of_finish tools name hoptimize hp (hfinish _)
  simp only [indented, Source.indent, String.toList_ofList] at hconvert
  cases hu : (indentStyle o.formatter).unit with
  | error e =>
    rw [hu] at hconvert
    exact hconvert
  | ok unit =>
    rw [hu] at hconvert
    obtain ⟨hroot, hs⟩ := parse_sound hp
    obtain ⟨back, hb, ha⟩ := parse_sourceText (by rw [adapt_tag, hroot]) (isSound_adapt o.removeIds hs)
      ((allComments_adapt _ root o.removeIds).trans hc) hname hexport
    obtain ⟨back', hb', ha'⟩ := parse_indentWith (isBlank_of_mem_unit hu) hb ha
    exact ⟨_, back', hconvert, by rwa [String.toList_ofList], ha'⟩

/-- A value over two lines, an attribute to rename and one to drop, text with a brace and a break in it
next to an element, and an export name of its own. -/
theorem parse_convert_indented_hard :
    ∃ root source back,
      parse "<svg id='i' class='a\n  b'><text> x \x7b\n <b/> y</text></svg>".toList = .ok root ∧
      (convert Tools.session "<svg id='i' class='a\n  b'><text> x \x7b\n <b/> y</text></svg>" "Icon"
          { removeIds := true, exportName := some "Star", formatter := { useTabs := true } } = do
        Tools.session.note ⟨.debug, .conversion, "Converted Icon (0 warning(s))"⟩
        return .ok { componentName := "Icon", source := some source }) ∧
      parse source.toList = .ok back ∧
      back.outline.Alike (fun a b => collapse a = collapse b)
        (fun a b => squash (decode a) = squash b)
        (withSpread (adapt root true) { removeIds := true }).outline := by
  obtain ⟨root, hp, hc⟩ := exists_parse_of_any
    (s := "<svg id='i' class='a\n  b'><text> x \x7b\n <b/> y</text></svg>".toList)
    (p := fun root => root.node.allComments fun _ => false) (by decide +kernel)
  obtain ⟨source, back, hconvert, hb, ha⟩ := parse_convert_indented Tools.session
    (o := { removeIds := true, exportName := some "Star", formatter := { useTabs := true } })
    rfl rfl rfl (show '<' ∉ "Icon".toList by decide) (by simp) hp hc
  exact ⟨root, source, back, hp, hconvert, hb, ha⟩

end SvgComponent
