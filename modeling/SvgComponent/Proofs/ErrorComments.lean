import SvgComponent.Proofs.ToolFailures

/-!
# Failed conversions as comments

The text of a conversion that fails is its message in a frame of comments. The frame starts a comment
on the first line and on the last, so what lies between depends on the message alone
(`commented_errorText`). The messages of the reader take one line; those of a crash can take any number,
and their further lines are comments only if they say so themselves (`convertToText_commented_iff`).
-/

namespace SvgComponent

open Settings Tool Text Markup

/-! ## Lines of source -/

/-- The characters that end a line of source. -/
def endsLine (c : Char) : Bool := c == '\n' || c == '\r' || c == '\u2028' || c == '\u2029'

/-- The lines of source. A carriage return and the line feed behind it end a line together. -/
def sourceLines : List Char → List (List Char)
  | [] => [[]]
  | c :: s =>
    if endsLine c then
      if c = '\r' ∧ s.head? = some '\n' then sourceLines s else [] :: sourceLines s
    else (sourceLines s).modifyHead (c :: ·)

theorem sourceLines_ne_nil (s : List Char) : sourceLines s ≠ [] := by
  induction s with
  | nil => simp [sourceLines]
  | cons c s ih =>
    rw [sourceLines]
    split
    · split
      · exact ih
      · simp
    · simpa using ih

theorem sourceLines_append_of_plain {a : List Char} (ha : ∀ c ∈ a, endsLine c = false) (s : List Char) :
    sourceLines (a ++ s) = (sourceLines s).modifyHead (a ++ ·) := by
  obtain ⟨l, ls, h⟩ := List.exists_cons_of_ne_nil (sourceLines_ne_nil s)
  induction a with
  | nil => simp [h]
  | cons c a ih =>
    simp only [List.mem_cons, forall_eq_or_imp] at ha
    rw [List.cons_append, sourceLines, if_neg (by simp [ha.1]), ih ha.2, h]
    rfl

theorem sourceLines_of_plain {a : List Char} (ha : ∀ c ∈ a, endsLine c = false) : sourceLines a = [a] := by
  simpa [sourceLines] using sourceLines_append_of_plain ha []

/-- What a line feed ends does not depend on what stands behind it. -/
theorem exists_sourceLines_ended (a : List Char) :
    ∃ l ls, ∀ s, sourceLines (a ++ '\n' :: s) = l :: ls ++ sourceLines s := by
  induction a with
  | nil => exact ⟨[], [], fun s => rfl⟩
  | cons c a ih =>
    obtain ⟨l, ls, h⟩ := ih
    have hhead : ∀ s, (a ++ '\n' :: s).head? = (a ++ ['\n']).head? := by
      intro s
      cases a <;> rfl
    by_cases hc : endsLine c = true
    · by_cases hpair : c = '\r' ∧ (a ++ ['\n']).head? = some '\n'
      · refine ⟨l, ls, fun s => ?_⟩
        rw [List.cons_append, sourceLines, if_pos hc, hhead, if_pos hpair, h]
      · refine ⟨[], l :: ls, fun s => ?_⟩
        rw [List.cons_append, sourceLines, if_pos hc, hhead, if_neg hpair, h]
        rfl
    · refine ⟨c :: l, ls, fun s => ?_⟩
      rw [List.cons_append, sourceLines, if_neg hc, h]
      rfl

/-! ## Comments -/

/-- Source of which every line is a comment. -/
def Commented (text : String) : Prop := ∀ line ∈ sourceLines text.toList, "//".toList <+: line

instance (text : String) : Decidable (Commented text) :=
  List.decidableBAll _ _

/-- A message that can stand in a comment: all its lines but the first start a comment of their own, with
another comment on the line below the message. -/
def StaysComment (message : String) : Prop :=
  ∀ line ∈ (sourceLines (message.toList ++ "\n//".toList)).tail, "//".toList <+: line

instance (message : String) : Decidable (StaysComment message) :=
  List.decidableBAll _ _

theorem staysComment_of_plain {message : String} (h : ∀ c ∈ message.toList, endsLine c = false) :
    StaysComment message := by
  have hlines : sourceLines (message.toList ++ "\n//".toList) = [message.toList, "//".toList] := by
    rw [sourceLines_append_of_plain h]
    simp [sourceLines, endsLine]
  intro line hline
  rw [hlines] at hline
  obtain rfl : line = "//".toList := by simpa using hline
  exact List.prefix_rfl

/-- A message between two comments, the second on a line of its own. -/
theorem forall_sourceLines_framed {before after : List Char} (hbefore : ∀ c ∈ before, endsLine c = false)
    (hafter : ∀ c ∈ after, endsLine c = false) (hopen : "//".toList <+: before)
    (hlast : "//".toList <+: after) (message : String) :
    (∀ line ∈ sourceLines (before ++ message.toList ++ '\n' :: after), "//".toList <+: line) ↔
      StaysComment message := by
  obtain ⟨l, ls, h⟩ := exists_sourceLines_ended message.toList
  have hframed : sourceLines (before ++ message.toList ++ '\n' :: after) =
      (before ++ l) :: (ls ++ [after]) := by
    rw [List.append_assoc, sourceLines_append_of_plain hbefore, h, sourceLines_of_plain hafter]
    rfl
  have hbelow : (sourceLines (message.toList ++ "\n//".toList)).tail = ls ++ ["//".toList] := by
    rw [show "\n//".toList = '\n' :: "//".toList from rfl, h,
      sourceLines_of_plain (forall_mem_of_all (by decide))]
    rfl
  rw [StaysComment, hframed, hbelow, List.forall_mem_cons, List.forall_mem_append,
    List.forall_mem_append, List.forall_mem_singleton, List.forall_mem_singleton]
  constructor
  · rintro ⟨-, hls, -⟩
    exact ⟨hls, List.prefix_rfl⟩
  · rintro ⟨hls, -⟩
    exact ⟨hopen.trans (List.prefix_append _ _), hls, hlast⟩

/-- **An error is shown as comments** exactly if its message can stand in one. -/
theorem commented_errorText (message : String) :
    Commented (errorText message) ↔ StaysComment message := by
  have hbreak : "\n// Please check your SVG syntax and try again.".toList =
      '\n' :: "// Please check your SVG syntax and try again.".toList := by decide +kernel
  unfold Commented errorText
  simp only [String.toList_append, hbreak]
  exact forall_sourceLines_framed (forall_mem_of_all (by decide +kernel))
    (forall_mem_of_all (by decide +kernel)) (by decide +kernel) (by decide +kernel) message

/-! ## Conversions that fail -/

/-- The message that a failed conversion is shown with. -/
def failure? : Except Crash Result → Option String
  | .ok r => r.error.map Diagnostic.message
  | .error c => some c.report

section

variable {σ : Type} (tools : Tools (StateM σ)) (svg name : String) (o : Options) (st : σ)

theorem convertToText_fst :
    (convertToText tools svg name o st).1 =
      match (convert tools svg name o st).1 with
      | .ok r => r.text
      | .error c => errorText c.report := by
  rw [convertToText, bind_apply]
  cases (convert tools svg name o st).1 <;> rfl

variable {svg name o st}

theorem convertToText_of_failure {message : String}
    (h : failure? (convert tools svg name o st).1 = some message) :
    (convertToText tools svg name o st).1 = errorText message := by
  rw [convertToText_fst]
  cases hrun : (convert tools svg name o st).1 with
  | error c =>
    rw [hrun] at h
    obtain rfl := Option.some.inj h
    rfl
  | ok r =>
    rw [hrun] at h
    obtain ⟨d, hd, rfl⟩ := Option.map_eq_some_iff.1 h
    simp only [Result.text, hd]

/-- A conversion that has a result fails only if there is nothing to read. -/
theorem exists_parseError {r : Result} (hrun : (convert tools svg name o st).1 = .ok r) {message : String}
    (h : failure? (.ok r) = some message) : ∃ e : ParseError, message = e.message := by
  obtain ⟨d, hd, rfl⟩ := Option.map_eq_some_iff.1 h
  by_cases hb : isBlankText svg.toList = true
  · rw [convert_blank tools name o hb] at hrun
    cases hrun
    cases hd
  · rw [convert_fst tools name o (by simpa using hb)] at hrun
    obtain ⟨markup, optimized, -, ⟨d', hs, hd'⟩ | ⟨source, final, -, -, hd'⟩⟩ := resultOf_eq_ok hrun
    · obtain ⟨e, rfl⟩ := exists_of_sourceOf_error hs
      rw [hd, Option.some.injEq] at hd'
      exact ⟨e, by rw [hd']⟩
    · rw [hd] at hd'
      cases hd'

theorem staysComment_parseError (e : ParseError) : StaysComment e.message := by
  apply staysComment_of_plain
  apply forall_mem_of_all
  cases e <;> decide +kernel

end

/-- **A failed conversion is shown as comments** unless it crashed with a message that ends the comment it
stands in. -/
theorem convertToText_commented_iff {σ : Type} (tools : Tools (StateM σ)) {svg name : String} {o : Options}
    {st : σ} {message : String} (h : failure? (convert tools svg name o st).1 = some message) :
    (convertToText tools svg name o st).1 = errorText message ∧
      (Commented (convertToText tools svg name o st).1 ↔
        ∀ c, (convert tools svg name o st).1 = .error c → StaysComment c.report) := by
  refine ⟨convertToText_of_failure tools h, ?_⟩
  rw [convertToText_of_failure tools h, commented_errorText]
  cases hrun : (convert tools svg name o st).1 with
  | error c =>
    rw [hrun] at h
    obtain rfl := Option.some.inj h
    exact ⟨fun hc c' hc' => Except.error.inj hc' ▸ hc, fun hall => hall c rfl⟩
  | ok r =>
    rw [hrun] at h
    obtain ⟨e, rfl⟩ := exists_parseError tools hrun h
    exact ⟨fun _ c hc => (nomatch hc), fun _ => staysComment_parseError e⟩

/-- Tools that crash with a message. -/
def crashingTools (message : String) : Tools (StateM Unit) where
  optimize _ _ st := (.error (.crash (.fault "RuntimeError" message)), st)
  format _ _ _ st := (.error (.crash (.fault "RuntimeError" message)), st)
  note _ st := ((), st)

theorem convertToText_commented_continued :
    failure? (convert (crashingTools "a\r\n// b") "<svg/>" "Icon" { optimizeSvg := true } ()).1 =
        some "a\r\n// b" ∧
      (convertToText (crashingTools "a\r\n// b") "<svg/>" "Icon" { optimizeSvg := true } ()).1 =
        "// Error converting SVG: a\r\n// b\n// Please check your SVG syntax and try again." ∧
      Commented
        (convertToText (crashingTools "a\r\n// b") "<svg/>" "Icon" { optimizeSvg := true } ()).1 := by
  have hrun : (convert (crashingTools "a\r\n// b") "<svg/>" "Icon" { optimizeSvg := true } ()).1 =
      .error (.fault "RuntimeError" "a\r\n// b") := by
    rw [convert_fst _ _ _ (by decide)]
    rfl
  have hfailure : failure? (convert (crashingTools "a\r\n// b") "<svg/>" "Icon"
      { optimizeSvg := true } ()).1 = some "a\r\n// b" := by
    rw [hrun]
    rfl
  obtain ⟨htext, hiff⟩ := convertToText_commented_iff _ hfailure
  refine ⟨hfailure, htext, hiff.2 fun c hc => ?_⟩
  obtain rfl := Except.error.inj (hrun.symm.trans hc)
  decide

/-- A message in two lines leaves the comment. -/
theorem not_commented_crash :
    (convertToText (crashingTools "a\nb") "<svg/>" "Icon" { optimizeSvg := true } ()).1 =
        "// Error converting SVG: a\nb\n// Please check your SVG syntax and try again." ∧
      ¬ Commented
        (convertToText (crashingTools "a\nb") "<svg/>" "Icon" { optimizeSvg := true } ()).1 := by
  have htext : (convertToText (crashingTools "a\nb") "<svg/>" "Icon" { optimizeSvg := true } ()).1 =
      errorText "a\nb" := by
    rw [convertToText_fst, convert_fst _ _ _ (by decide)]
    rfl
  refine ⟨htext, ?_⟩
  rw [htext, commented_errorText]
  decide

end SvgComponent
