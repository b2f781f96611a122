import SvgComponent.Proofs.ComponentSource

/-!
# What a conversion says of the tools it used

A conversion may use an optimizer and a formatter. `Tools.recorded` are the same tools with a log of
their uses. Logging changes nothing else (`Records`), and the result of a conversion accounts for all
that stands in the log (`Result.AccountsFor`): which tools were used, on what, and which of them failed.
-/

namespace SvgComponent

open Settings Tool Text Markup Jsx Component

/-! ## Logs -/

structure ToolUse (α : Type) where
  request : α
  reply : Except ToolError String

/-- The warnings that a use gives rise to: one if the tool failed. -/
def ToolUse.warnings {α : Type} (kind : DiagnosticKind) (u : ToolUse α) : List Diagnostic :=
  match u.reply with
  | .error (.failure message) => [⟨kind, message⟩]
  | _ => []

/-- The uses of the tools of a conversion, in order. -/
structure ToolLog where
  optimizer : List (ToolUse (String × OptimizerOptions)) := []
  formatter : List (ToolUse (String × FormatterOptions × Language)) := []

def ToolLog.append (a b : ToolLog) : ToolLog := ⟨a.optimizer ++ b.optimizer, a.formatter ++ b.formatter⟩

instance : Append ToolLog := ⟨ToolLog.append⟩

@[simp] theorem ToolLog.optimizer_append (a b : ToolLog) :
    (a ++ b).optimizer = a.optimizer ++ b.optimizer := rfl

@[simp] theorem ToolLog.formatter_append (a b : ToolLog) :
    (a ++ b).formatter = a.formatter ++ b.formatter := rfl

@[simp] theorem ToolLog.nil_append (a : ToolLog) : ({} : ToolLog) ++ a = a := rfl

@[simp] theorem ToolLog.append_nil (a : ToolLog) : a ++ ({} : ToolLog) = a := by
  change ToolLog.mk _ _ = _
  simp

theorem ToolLog.append_assoc (a b c : ToolLog) : a ++ b ++ c = a ++ (b ++ c) := by
  change ToolLog.mk _ _ = ToolLog.mk _ _
  simp

/-- The tools, with a log of their uses. -/
def Tools.recorded {m : Type → Type} [Monad m] (tools : Tools m) : Tools (StateT ToolLog m) where
  optimize svg options log := do
    let reply ← tools.optimize svg options
    return (reply, log ++ { optimizer := [⟨(svg, options), reply⟩] })
  format source options language log := do
    let reply ← tools.format source options language
    return (reply, log ++ { formatter := [⟨(source, options, language), reply⟩] })
  note entry log := do
    tools.note entry
    return ((), log)

/-! ## Runs with a log -/

section

variable {σ α β : Type}

/-- `x` does what `y` does, with the same result and the same final state, and what it adds to the log
is related to the result by `P`. -/
def Records (x : StateT ToolLog (StateM σ) α) (y : StateM σ α) (P : ToolLog → α → Prop) : Prop :=
  ∀ log st, ∃ more, x log st = (((y st).1, log ++ more), (y st).2) ∧ P more (y st).1

namespace Records

variable {x : StateT ToolLog (StateM σ) α} {y : StateM σ α} {P : ToolLog → α → Prop}
  {f : α → StateT ToolLog (StateM σ) β} {g : α → StateM σ β} {Q : ToolLog → β → Prop}

theorem pure {a : α} (h : P {} a) :
    Records (Pure.pure a : StateT ToolLog (StateM σ) α) (Pure.pure a) P := by
  intro log st
  exact ⟨{}, by rw [ToolLog.append_nil]; rfl, h⟩

theorem bind (hx : Records x y P)
    (hf : ∀ log a, P log a → Records (f a) (g a) fun more b => Q (log ++ more) b) :
    Records (x >>= f) (y >>= g) Q := by
  intro log st
  obtain ⟨first, hfirst, hP⟩ := hx log st
  obtain ⟨more, hmore, hQ⟩ := hf first _ hP (log ++ first) (y st).2
  refine ⟨first ++ more, ?_, hQ⟩
  rw [← ToolLog.append_assoc]
  change f (x log st).1.1 (x log st).1.2 (x log st).2 = _
  rw [hfirst]
  exact hmore

end Records

end

section

variable {σ : Type} (tools : Tools (StateM σ))

theorem records_optimize (svg : String) (options : OptimizerOptions) :
    Records (tools.recorded.optimize svg options) (tools.optimize svg options) fun log reply =>
      log = { optimizer := [⟨(svg, options), reply⟩] } := fun _ _ => ⟨_, rfl, rfl⟩

theorem records_format (source : String) (options : FormatterOptions) (language : Language) :
    Records (tools.recorded.format source options language) (tools.format source options language)
      fun log reply => log = { formatter := [⟨(source, options, language), reply⟩] } :=
  fun _ _ => ⟨_, rfl, rfl⟩

/-- A message leaves the log as it is. -/
theorem records_note {α : Type} (entry : LogEntry) {f : Unit → StateT ToolLog (StateM σ) α}
    {g : Unit → StateM σ α} {P : ToolLog → α → Prop} (h : Records (f ()) (g ()) P) :
    Records (tools.recorded.note entry >>= f) (tools.note entry >>= g) P :=
  fun log st => h log (tools.note entry st).2

/-! ## The stages that use tools -/

/-- What a log says of the markup that was prepared. -/
structure Prepared (svg : String) (o : Options) (log : ToolLog) (a : Attempt (String × Bool)) : Prop where
  requests : log.optimizer.map ToolUse.request = if o.optimizeSvg then [(svg, o.optimizer)] else []
  formatter : log.formatter = []
  warnings : a.warnings = log.optimizer.flatMap (ToolUse.warnings .optimizerFailure)
  optimized : ∀ markup optimized, a.outcome = .ok (markup, optimized) →
    (optimized = true ↔ ∃ u ∈ log.optimizer, ∃ text, u.reply = .ok text)

/-- What a log says of the source that was finished. -/
structure Finished (source : String) (o : Options) (log : ToolLog) (a : Attempt String) : Prop where
  requests : log.formatter.map ToolUse.request =
    if o.useFormatter && !o.minify then [(source, o.formatter, o.language)] else []
  optimizer : log.optimizer = []
  warnings : a.warnings = log.formatter.flatMap (ToolUse.warnings .formatterFailure)

theorem records_prepare (svg : String) (o : Options) :
    Records (prepare tools.recorded o svg) (prepare tools o svg) (Prepared svg o) := by
  unfold prepare
  by_cases ho : o.optimizeSvg = true
  · simp only [ho, if_true]
    refine (records_optimize tools svg o.optimizer).bind ?_
    rintro _ reply rfl
    rcases reply with (message | crash) | text
    · refine records_note tools _ ?_
      exact .pure ⟨by simp [ho], rfl, rfl, by simp⟩
    · exact .pure ⟨by simp [ho], rfl, rfl, by simp⟩
    · exact .pure ⟨by simp [ho], rfl, rfl, by simp⟩
  · simp only [ho]
    exact .pure ⟨by simp [ho], rfl, rfl, by simp⟩

theorem records_finish (source : String) (o : Options) :
    Records (finish tools.recorded o source) (finish tools o source) (Finished source o) := by
  unfold finish
  by_cases hm : o.minify = true
  · simp only [hm, if_true]
    exact .pure ⟨by simp [hm], rfl, rfl⟩
  by_cases hf : o.useFormatter = true
  · simp only [hm, hf, if_true]
    refine (records_format tools source o.formatter o.language).bind ?_
    rintro _ reply rfl
    rcases reply with (message | crash) | text
    · refine records_note tools _ ?_
      exact .pure ⟨by simp [hm, hf], rfl, rfl⟩
    · exact .pure ⟨by simp [hm, hf], rfl, rfl⟩
    · exact .pure ⟨by simp [hm, hf], rfl, rfl⟩
  · simp only [hm, hf]
    exact .pure ⟨by simp [hf], rfl, rfl⟩

end

/-- Writing never fails on what was read, so the only error is that nothing could be read. -/
theorem exists_of_sourceOf_error {svg name : String} {o : Options} {optimized : Bool} {d : Diagnostic}
    (h : sourceOf svg name o optimized = .error d) :
    ∃ e : ParseError, d = ⟨.noSvgRoot, e.message⟩ := by
  unfold sourceOf at h
  split at h
  · rename_i e _
    cases h
    exact ⟨e, rfl⟩
  · rename_i root hroot
    have htag : (adapt root (o.removeIds && !optimized)).tag = rootTag := by
      rw [adapt_tag]
      exact (parse_sound hroot).1
    simp [generate_eq htag] at h

theorem kind_of_sourceOf_error {svg name : String} {o : Options} {optimized : Bool} {d : Diagnostic}
    (h : sourceOf svg name o optimized = .error d) : d.kind = .noSvgRoot := by
  obtain ⟨e, rfl⟩ := exists_of_sourceOf_error h
  rfl

/-! ## The result -/

theorem mem_kinds_warnings {α : Type} {kind k : DiagnosticKind} {us : List (ToolUse α)} :
    k ∈ (us.flatMap (ToolUse.warnings kind)).map Diagnostic.kind ↔
      k = kind ∧ ∃ u ∈ us, ∃ message, u.reply = .error (.failure message) := by
  simp only [List.mem_map, List.mem_flatMap]
  constructor
  · rintro ⟨d, ⟨u, hu, hd⟩, rfl⟩
    unfold ToolUse.warnings at hd
    split at hd
    · rename_i message hreply
      obtain rfl := List.mem_singleton.1 hd
      exact ⟨rfl, u, hu, message, hreply⟩
    · cases hd
  · rintro ⟨rfl, u, hu, message, hreply⟩
    exact ⟨⟨k, message⟩, ⟨u, hu, by simp [ToolUse.warnings, hreply]⟩, rfl⟩

theorem kinds_warnings_sublist {α : Type} (kind : DiagnosticKind) {us : List (ToolUse α)}
    (h : us.length ≤ 1) :
    ((us.flatMap (ToolUse.warnings kind)).map Diagnostic.kind).Sublist [kind] := by
  match us, h with
  | [], _ => exact List.nil_sublist _
  | [u], _ =>
    rw [List.flatMap_singleton, ToolUse.warnings]
    split
    · exact .refl _
    · exact List.nil_sublist _

/-- The result of a conversion accounts for the uses of tools. -/
structure Result.AccountsFor (r : Result) (svg : String) (o : Options) (log : ToolLog) : Prop where
  /-- There is either source or an error. -/
  exclusive : r.source.isSome = !r.error.isSome
  error : ∀ d, r.error = some d → d.kind = .noSvgRoot
  /-- The optimizer was used once, on the markup itself, if it was asked for and there is markup. -/
  optimizer : log.optimizer.map ToolUse.request =
    if o.optimizeSvg && !isBlankText svg.toList then [(svg, o.optimizer)] else []
  /-- The formatter was used once, if it was asked for and there is source to be formatted. -/
  formatter : log.formatter.map (·.request.2) =
    if o.useFormatter && !o.minify && r.error.isNone && !isBlankText svg.toList then
      [(o.formatter, o.language)] else []
  optimized : r.optimized = true ↔ ∃ u ∈ log.optimizer, ∃ text, u.reply = .ok text
  warnings : (r.warnings.map Diagnostic.kind).Sublist [.optimizerFailure, .formatterFailure]
  optimizerFailure : .optimizerFailure ∈ r.warnings.map Diagnostic.kind ↔
    ∃ u ∈ log.optimizer, ∃ message, u.reply = .error (.failure message)
  formatterFailure : .formatterFailure ∈ r.warnings.map Diagnostic.kind ↔
    ∃ u ∈ log.formatter, ∃ message, u.reply = .error (.failure message)

section

variable {svg source : String} {o : Options} {log more : ToolLog} {prepared : Attempt (String × Bool)}
  {finished : Attempt String}

theorem length_le_one_of_map {α β : Type} {f : α → β} {xs : List α} {b : Bool} {y : β}
    (h : xs.map f = if b then [y] else []) : xs.length ≤ 1 := by
  have := congrArg List.length h
  rw [List.length_map] at this
  rw [this]
  split <;> simp

theorem Result.AccountsFor.failed {name markup : String} {optimized : Bool}
    (hb : isBlankText svg.toList = false) (hp : Prepared svg o log prepared)
    (hout : prepared.outcome = .ok (markup, optimized)) {d : Diagnostic} (hd : d.kind = .noSvgRoot) :
    Result.AccountsFor
      { componentName := name, error := some d, warnings := prepared.warnings, optimized } svg o log where
  exclusive := rfl
  error := by simp [hd]
  optimizer := by simp [hp.requests, hb]
  formatter := by simp [hp.formatter]
  optimized := hp.optimized markup optimized hout
  warnings := by
    rw [hp.warnings]
    exact (kinds_warnings_sublist _ (length_le_one_of_map hp.requests)).trans (by simp)
  optimizerFailure := by rw [hp.warnings, mem_kinds_warnings]; simp
  formatterFailure := by rw [hp.warnings, mem_kinds_warnings]; simp [hp.formatter]

theorem Result.AccountsFor.succeeded {name markup final : String} {optimized : Bool}
    (hb : isBlankText svg.toList = false) (hp : Prepared svg o log prepared)
    (hout : prepared.outcome = .ok (markup, optimized)) (hf : Finished source o more finished) :
    Result.AccountsFor
      { componentName := name, source := some final, warnings := prepared.warnings ++ finished.warnings,
        optimized } svg o (log ++ more) where
  exclusive := rfl
  error := by simp
  optimizer := by simp [hp.requests, hf.optimizer, hb]
  formatter := by
    have hrequests := congrArg (List.map Prod.snd) hf.requests
    rw [List.map_map] at hrequests
    rw [ToolLog.formatter_append, hp.formatter, List.nil_append]
    refine hrequests.trans ?_
    simp only [hb, Option.isNone_none, Bool.not_false, Bool.and_true]
    split <;> rfl
  optimized := by simpa [hf.optimizer] using hp.optimized markup optimized hout
  warnings := by
    rw [List.map_append, hp.warnings, hf.warnings]
    exact (kinds_warnings_sublist _ (length_le_one_of_map hp.requests)).append
      (kinds_warnings_sublist _ (length_le_one_of_map hf.requests))
  optimizerFailure := by
    rw [List.map_append, List.mem_append, hp.warnings, hf.warnings, mem_kinds_warnings, mem_kinds_warnings]
    simp [hf.optimizer]
  formatterFailure := by
    rw [List.map_append, List.mem_append, hp.warnings, hf.warnings, mem_kinds_warnings, mem_kinds_warnings]
    simp [hp.formatter]

end

theorem records_convert {σ : Type} (tools : Tools (StateM σ)) (svg name : String) (o : Options) :
    Records (convert tools.recorded svg name o) (convert tools svg name o) fun log result =>
      ∀ r, result = .ok r → r.AccountsFor svg o log := by
  unfold convert
  by_cases hb : isBlankText svg.toList = true
  · simp only [hb, if_true]
    refine .pure ?_
    rintro r ⟨⟩
    exact ⟨rfl, by simp, by simp [hb], by simp [hb], by simp, by simp, by simp, by simp⟩
  simp only [hb]
  refine (records_prepare tools svg o).bind fun log prepared hp => ?_
  cases hout : prepared.outcome with
  | error c => exact .pure (by simp)
  | ok markup =>
    obtain ⟨markup, optimized⟩ := markup
    cases hs : sourceOf markup name o optimized with
    | error d =>
      simp only [hs]
      refine records_note tools _ (.pure ?_)
      rintro r ⟨⟩
      rw [ToolLog.append_nil]
      exact .failed (by simpa using hb) hp hout (kind_of_sourceOf_error hs)
    | ok source =>
      simp only [hs]
      refine (records_finish tools source o).bind fun more finished hf => ?_
      cases hfinal : finished.outcome with
      | error c => exact .pure (by simp)
      | ok final =>
        refine records_note tools _ (.pure ?_)
        rintro r ⟨⟩
        rw [ToolLog.append_nil]
        exact .succeeded (by simpa using hb) hp hout hf

/-- **A conversion accounts for the tools it used.** -/
theorem convert_accountsFor {σ : Type} (tools : Tools (StateM σ)) {svg name : String} {o : Options}
    {st st' : σ} {r : Result} (h : convert tools svg name o st = (.ok r, st')) :
    ∃ log, convert tools.recorded svg name o {} st = ((.ok r, log), st') ∧ r.AccountsFor svg o log := by
  obtain ⟨log, hrun, hresult⟩ := records_convert tools svg name o {} st
  rw [h] at hrun hresult
  exact ⟨log, hrun, hresult r rfl⟩

/-- Tools that count their uses: an optimizer that mends markup and a formatter that is out of order. -/
def mendingTools : Tools (StateM Nat) where
  optimize _ _ count := (.ok "<svg><path/></svg>", count + 1)
  format _ _ _ count := (.error (.failure "out of order"), count + 1)
  note _ count := ((), count)

theorem convert_accountsFor_mended :
    ∃ r log, convert mendingTools "<svg><path>" "Icon" { optimizeSvg := true, useFormatter := true } 0 =
        (.ok r, 2) ∧
      r.error = none ∧ r.optimized = true ∧ r.warnings.map Diagnostic.kind = [.formatterFailure] ∧
      convert mendingTools.recorded "<svg><path>" "Icon" { optimizeSvg := true, useFormatter := true } {} 0 =
        ((.ok r, log), 2) ∧
      r.AccountsFor "<svg><path>" { optimizeSvg := true, useFormatter := true } log := by
  have hcount : (convert mendingTools "<svg><path>" "Icon"
      { optimizeSvg := true, useFormatter := true } 0).2 = 2 := by decide +kernel
  have hresult : (convert mendingTools "<svg><path>" "Icon"
      { optimizeSvg := true, useFormatter := true } 0).1.toOption.any (fun r => r.error.isNone &&
        r.optimized && r.warnings.map Diagnostic.kind == [.formatterFailure]) = true := by
    decide +kernel
  generalize hrun : convert mendingTools "<svg><path>" "Icon"
    { optimizeSvg := true, useFormatter := true } 0 = run at hcount hresult
  obtain ⟨result, count⟩ := run
  obtain rfl : count = 2 := hcount
  cases result with
  | error c => cases hresult
  | ok r =>
    obtain ⟨log, hlog, ha⟩ := convert_accountsFor mendingTools hrun
    simp only [Except.toOption, Option.any_some, Bool.and_eq_true, Option.isNone_iff_eq_none,
      beq_iff_eq] at hresult
    exact ⟨r, log, rfl, hresult.1.1, hresult.1.2, hresult.2, hlog, ha⟩

end SvgComponent
