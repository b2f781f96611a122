import SvgComponent.Proofs.ConversionOutcome

/-!
# Conversions whose tools fail

A conversion with a tool that fails comes to the same as a conversion without the tool, but for a warning.

* `resultOf`, `convert_fst`: the result of a conversion depends on what its stages give back, and on
  nothing that they log.
* `convert_optimizer_failed`, `convert_formatter_failed`: one tool that fails.
* `Collaborators`, `convert_fallback`: either tool and both, for tools that keep any state of their own.
-/

namespace SvgComponent

open Settings Tool Text Markup Jsx Component

/-! ## Results from those of the stages -/

/-- The result of converting markup that is not blank, from what comes of preparing it and of finishing its
source. -/
def resultOf (name : String) (o : Options) (prepared : Attempt (String × Bool))
    (finished : String → Attempt String) : Except Crash Result :=
  match prepared.outcome with
  | .error c => .error c
  | .ok (markup, optimized) =>
    match sourceOf markup name o optimized with
    | .error d =>
      .ok { componentName := name, error := some d, warnings := prepared.warnings, optimized }
    | .ok source =>
      match (finished source).outcome with
      | .error c => .error c
      | .ok final =>
        .ok { componentName := name, source := some final,
              warnings := prepared.warnings ++ (finished source).warnings, optimized }

/-- What there is to know of a conversion that has a result. -/
theorem resultOf_eq_ok {name : String} {o : Options} {p : Attempt (String × Bool)}
    {f : String → Attempt String} {r : Result} (h : resultOf name o p f = .ok r) :
    ∃ markup optimized, p.outcome = .ok (markup, optimized) ∧
      ((∃ d, sourceOf markup name o optimized = .error d ∧ r.error = some d) ∨
        ∃ source final, sourceOf markup name o optimized = .ok source ∧
          (f source).outcome = .ok final ∧ r.error = none) := by
  unfold resultOf at h
  split at h
  · cases h
  · rename_i markup optimized hp
    refine ⟨markup, optimized, hp, ?_⟩
    split at h
    · rename_i d hd
      obtain rfl := Except.ok.inj h
      exact .inl ⟨d, hd, rfl⟩
    · rename_i source hs
      split at h
      · cases h
      · rename_i final hfinal
        obtain rfl := Except.ok.inj h
        exact .inr ⟨source, final, hs, hfinal, rfl⟩

section

variable {σ : Type}

theorem bind_apply {α β : Type} (x : StateM σ α) (f : α → StateM σ β) (st : σ) :
    (x >>= f) st = f (x st).1 (x st).2 := rfl

variable (tools : Tools (StateM σ)) (name : String) (o : Options)

theorem convert_blank {svg : String} (hb : isBlankText svg.toList = true) (st : σ) :
    (convert tools svg name o st).1 = .ok { componentName := name, source := some "" } := by
  simp only [convert, hb, if_true]
  rfl

/-- **The result of a conversion** follows from what its stages give back. -/
theorem convert_fst {svg : String} (hb : isBlankText svg.toList = false) (st : σ) :
    (convert tools svg name o st).1 =
      resultOf name o (prepare tools o svg st).1 fun source =>
        (finish tools o source (prepare tools o svg st).2).1 := by
  simp only [convert, hb, Bool.false_eq_true, if_false, resultOf]
  rw [bind_apply]
  generalize prepare tools o svg st = prepared
  obtain ⟨⟨warnings, outcome⟩, st'⟩ := prepared
  cases outcome with
  | error c => rfl
  | ok markup =>
    cases hs : sourceOf markup.1 name o markup.2 with
    | error d =>
      simp only [hs]
      rfl
    | ok source =>
      simp only [hs]
      rw [bind_apply]
      generalize finish tools o source st' = finished
      obtain ⟨⟨warnings', outcome'⟩, st''⟩ := finished
      cases outcome' with
      | error c => rfl
      | ok final => rfl

/-! ## What the stages give back -/

/-- What preparing markup comes to, from the optimizer's reply. -/
def preparedBy (svg : String) : Except ToolError String → Attempt (String × Bool)
  | .ok optimized => ⟨[], .ok (optimized, true)⟩
  | .error (.failure message) => ⟨[⟨.optimizerFailure, message⟩], .ok (svg, false)⟩
  | .error (.crash c) => ⟨[], .error c⟩

/-- What finishing source comes to, from the formatter's reply. -/
def finishedBy (o : Options) (source : String) : Except ToolError String → Attempt String
  | .ok formatted => ⟨[], .ok formatted⟩
  | .error (.failure message) => ⟨[⟨.formatterFailure, message⟩], indented o source⟩
  | .error (.crash c) => ⟨[], .error c⟩

variable {o} (svg source : String) (st : σ)

theorem prepare_without (ho : o.optimizeSvg = false) :
    prepare tools o svg st = (⟨[], .ok (svg, false)⟩, st) := by
  simp only [prepare, ho, Bool.false_eq_true, if_false]
  rfl

theorem prepare_fst (ho : o.optimizeSvg = true) :
    (prepare tools o svg st).1 = preparedBy svg (tools.optimize svg o.optimizer st).1 := by
  simp only [prepare, ho, if_true]
  rw [bind_apply]
  rcases (tools.optimize svg o.optimizer st).1 with (message | c) | optimized <;> rfl

theorem finish_minified (hm : o.minify = true) :
    (finish tools o source st).1 = ⟨[], .ok (String.ofList (Source.minify source.toList))⟩ := by
  simp only [finish, hm, if_true]
  rfl

theorem finish_without (hm : o.minify = false) (hf : o.useFormatter = false) :
    (finish tools o source st).1 = ⟨[], indented o source⟩ := by
  simp only [finish, hm, hf, Bool.false_eq_true, if_false]
  rfl

theorem finish_fst (hm : o.minify = false) (hf : o.useFormatter = true) :
    (finish tools o source st).1 =
      finishedBy o source (tools.format source o.formatter o.language st).1 := by
  simp only [finish, hm, hf, Bool.false_eq_true, if_false, if_true]
  rw [bind_apply]
  rcases (tools.format source o.formatter o.language st).1 with (message | c) | formatted <;> rfl

end

/-! ## One tool that fails -/

section

variable (name : String) (o : Options)

theorem resultOf_prepared (ws : List Diagnostic) (p : Attempt (String × Bool))
    (f : String → Attempt String) :
    resultOf name o ⟨ws ++ p.warnings, p.outcome⟩ f =
      (resultOf name o p f).map fun r => { r with warnings := ws ++ r.warnings } := by
  unfold resultOf
  cases p.outcome with
  | error c => rfl
  | ok markup =>
    cases hs : sourceOf markup.1 name o markup.2 with
    | error d => simp only [hs, Except.map]
    | ok source =>
      cases hf : (f source).outcome with
      | error c => simp only [hs, hf, Except.map]
      | ok final => simp only [hs, hf, Except.map, List.append_assoc]

theorem resultOf_finished (ws : List Diagnostic) (p : Attempt (String × Bool))
    (f : String → Attempt String) :
    resultOf name o p (fun source => ⟨(f source).warnings ++ ws, (f source).outcome⟩) =
      (resultOf name o p f).map fun r =>
        { r with warnings := r.warnings ++ if r.error.isNone then ws else [] } := by
  unfold resultOf
  cases p.outcome with
  | error c => rfl
  | ok markup =>
    cases hs : sourceOf markup.1 name o markup.2 with
    | error d => simp [hs, Except.map]
    | ok source =>
      cases hf : (f source).outcome with
      | error c => simp only [hs, hf, Except.map]
      | ok final => simp [hs, hf, Except.map]

end

section

variable {σ τ : Type} (tools : Tools (StateM σ)) {svg : String} (name : String) {o : Options} {st : σ}
  {message : String}

/-- Formatters that reply alike make the same of source. -/
theorem finish_congr {tools' : Tools (StateM τ)} {st' : τ} {source : String}
    (h : (tools.format source o.formatter o.language st).1 =
      (tools'.format source o.formatter o.language st').1) :
    (finish tools o source st).1 = (finish tools' o source st').1 := by
  cases hm : o.minify with
  | true => rw [finish_minified _ _ _ hm, finish_minified _ _ _ hm]
  | false =>
    cases hf : o.useFormatter with
    | false => rw [finish_without _ _ _ hm hf, finish_without _ _ _ hm hf]
    | true => rw [finish_fst _ _ _ hm hf, finish_fst _ _ _ hm hf, h]

/-- **An optimizer that fails** might as well be switched off, if the formatter does not notice. -/
theorem convert_optimizer_failed (hb : isBlankText svg.toList = false) (ho : o.optimizeSvg = true)
    (hfail : (tools.optimize svg o.optimizer st).1 = .error (.failure message))
    {tools' : Tools (StateM τ)} {st' : τ}
    (hformat : ∀ source, (tools.format source o.formatter o.language (prepare tools o svg st).2).1 =
      (tools'.format source o.formatter o.language st').1) :
    (convert tools svg name o st).1 =
      (convert tools' svg name { o with optimizeSvg := false } st').1.map fun r =>
        { r with warnings := ⟨.optimizerFailure, message⟩ :: r.warnings } := by
  have hfinish : ∀ source, (finish tools o source (prepare tools o svg st).2).1 =
      (finish tools' { o with optimizeSvg := false } source st').1 := fun source =>
    finish_congr tools (hformat source)
  rw [convert_fst _ _ _ hb, convert_fst _ _ _ hb, prepare_without tools' svg st' rfl,
    prepare_fst _ _ _ ho, hfail, funext hfinish]
  exact resultOf_prepared name o [⟨.optimizerFailure, message⟩] ⟨[], .ok (svg, false)⟩ _

/-- Minified source is not formatted. -/
theorem convert_minified_alone (hm : o.minify = true) :
    (convert tools svg name { o with useFormatter := true } st).1 =
      (convert tools svg name { o with useFormatter := false } st).1 := by
  simp only [convert, prepare, finish, hm, if_true]
  rfl

/-- **A formatter that fails** might as well be switched off. -/
theorem convert_formatter_failed (hb : isBlankText svg.toList = false) (hf : o.useFormatter = true)
    (hm : o.minify = false)
    (hfail : ∀ source, (tools.format source o.formatter o.language (prepare tools o svg st).2).1 =
      .error (.failure message)) :
    (convert tools svg name o st).1 =
      (convert tools svg name { o with useFormatter := false } st).1.map fun r =>
        { r with warnings := r.warnings ++
            if r.error.isNone then [⟨.formatterFailure, message⟩] else [] } := by
  have hon : ∀ source, (finish tools o source (prepare tools o svg st).2).1 =
      ⟨[] ++ [⟨.formatterFailure, message⟩], indented o source⟩ := by
    intro source
    rw [finish_fst _ _ _ hm hf, hfail]
    rfl
  have hoff : ∀ source,
      (finish tools { o with useFormatter := false } source (prepare tools o svg st).2).1 =
        ⟨[], indented o source⟩ := fun source => finish_without _ _ _ hm rfl
  rw [convert_fst _ _ _ hb, convert_fst _ _ _ hb, funext hon]
  change _ = (resultOf name o (prepare tools o svg st).1 fun source =>
    (finish tools { o with useFormatter := false } source (prepare tools o svg st).2).1).map _
  rw [funext hoff]
  exact resultOf_finished name o _ _ fun source => ⟨[], indented o source⟩

/-- Without the optimizer nothing is said of it. -/
theorem result_without_optimizer (ho : o.optimizeSvg = false) {r : Result}
    (h : (convert tools svg name o st).1 = .ok r) :
    r.optimized = false ∧ ∀ d ∈ r.warnings, d.kind ≠ .optimizerFailure := by
  obtain ⟨log, -, hlog⟩ := records_convert tools svg name o {} st
  have ha := hlog r h
  have hnil : log.optimizer = [] := by simpa [ho] using ha.optimizer
  constructor
  · have := ha.optimized
    simpa [hnil] using this
  · intro d hd hkind
    obtain ⟨u, hu, -⟩ := ha.optimizerFailure.1 (hkind ▸ List.mem_map_of_mem hd)
    rw [hnil] at hu
    cases hu

/-- Without the formatter nothing is said of it. -/
theorem result_without_formatter (hf : o.useFormatter = false) {r : Result}
    (h : (convert tools svg name o st).1 = .ok r) :
    ∀ d ∈ r.warnings, d.kind ≠ .formatterFailure := by
  obtain ⟨log, -, hlog⟩ := records_convert tools svg name o {} st
  have ha := hlog r h
  have hnil : log.formatter = [] := by simpa [hf] using ha.formatter
  intro d hd hkind
  obtain ⟨u, hu, -⟩ := ha.formatterFailure.1 (hkind ▸ List.mem_map_of_mem hd)
  rw [hnil] at hu
  cases hu

end

/-! ## Tools with a state of their own -/

/-- An optimizer and a formatter that each keep a state of their own. -/
structure Collaborators (σ τ : Type) where
  optimize : String → OptimizerOptions → StateM σ (Except ToolError String)
  format : String → FormatterOptions → Language → StateM τ (Except ToolError String)

namespace Collaborators

/-- The states of both tools, and the messages logged. -/
structure State (σ τ : Type) where
  optimizer : σ
  formatter : τ
  log : List LogEntry := []

variable {σ τ : Type} (c : Collaborators σ τ) (svg name : String) (o : Options) (st : State σ τ)

/-- The tools of a conversion: each sees its own state, and messages are logged beside. -/
def tools : Tools (StateM (State σ τ)) where
  optimize svg options st :=
    let (reply, optimizer) := c.optimize svg options st.optimizer
    (reply, { st with optimizer })
  format source options language st :=
    let (reply, formatter) := c.format source options language st.formatter
    (reply, { st with formatter })
  note entry st := ((), { st with log := st.log ++ [entry] })

/-- The result of a conversion with each tool switched on or off. -/
def result (optimizeSvg useFormatter : Bool) : Except Crash Result :=
  (convert c.tools svg name { o with optimizeSvg, useFormatter } st).1

end Collaborators

/-- A result with what is said of an optimizer that failed: a warning in front of all others, if there was
markup to be optimized. -/
def Result.afterOptimizer (svg message : String) (r : Result) : Result :=
  { r with warnings :=
      (if isBlankText svg.toList then [] else [⟨.optimizerFailure, message⟩]) ++ r.warnings }

/-- A result with what is said of a formatter that failed: a warning behind all others, if there was source to
be formatted. -/
def Result.afterFormatter (svg : String) (minify : Bool) (message : String) (r : Result) : Result :=
  { r with warnings := r.warnings ++
      if !isBlankText svg.toList && r.error.isNone && !minify then [⟨.formatterFailure, message⟩]
      else [] }

namespace Collaborators

variable {σ τ : Type} (c : Collaborators σ τ) {svg : String} (name : String) {o : Options}
  {st : State σ τ} {message : String}

/-- Preparing markup does not touch the formatter's state. -/
theorem formatter_prepare (o : Options) : (prepare c.tools o svg st).2.formatter = st.formatter := by
  cases ho : o.optimizeSvg with
  | false => rw [prepare_without _ _ _ ho]
  | true =>
    simp only [prepare, ho, if_true]
    rw [bind_apply]
    rcases (c.tools.optimize svg o.optimizer st).1 with (message | crash) | optimized <;> rfl

theorem result_optimizer_failed
    (hfail : (c.optimize svg o.optimizer st.optimizer).1 = .error (.failure message))
    (formatted : Bool) :
    c.result svg name o st true formatted =
      (c.result svg name o st false formatted).map (Result.afterOptimizer svg message) := by
  unfold result Result.afterOptimizer
  cases hb : isBlankText svg.toList with
  | true =>
    rw [convert_blank _ _ _ hb, convert_blank _ _ _ hb]
    rfl
  | false =>
    refine convert_optimizer_failed c.tools name hb
      (o := { o with optimizeSvg := true, useFormatter := formatted }) rfl hfail fun source => ?_
    change (c.format source o.formatter _ _).1 = (c.format source o.formatter _ st.formatter).1
    rw [formatter_prepare]

theorem result_formatter_failed
    (hfail : ∀ source, (c.format source o.formatter o.language st.formatter).1 =
      .error (.failure message)) (optimized : Bool) :
    c.result svg name o st optimized true =
      (c.result svg name o st optimized false).map (Result.afterFormatter svg o.minify message) := by
  unfold result
  cases hb : isBlankText svg.toList with
  | true =>
    rw [convert_blank _ _ _ hb, convert_blank _ _ _ hb]
    simp [Except.map, Result.afterFormatter, hb]
  | false =>
    by_cases hm : o.minify = true
    · have hid : Result.afterFormatter svg o.minify message = id := by
        funext r
        simp [Result.afterFormatter, hm]
      rw [hid, Except.map_id]
      exact convert_minified_alone c.tools name
        (o := { o with optimizeSvg := optimized, useFormatter := true }) hm
    · rw [Bool.not_eq_true] at hm
      have hadd : Result.afterFormatter svg o.minify message = fun r => { r with warnings :=
          r.warnings ++ if r.error.isNone then [⟨.formatterFailure, message⟩] else [] } := by
        funext r
        simp [Result.afterFormatter, hb, hm]
      rw [hadd]
      refine convert_formatter_failed c.tools name hb
        (o := { o with optimizeSvg := optimized, useFormatter := true }) rfl hm fun source => ?_
      change (c.format source o.formatter o.language _).1 = _
      rw [formatter_prepare]
      exact hfail source

end Collaborators

/-- **A tool that fails might as well be switched off**: the source, the error and whether the markup was
optimized are those of a conversion without it, and one warning is added. If both tools fail, both warnings
are. -/
theorem convert_fallback {σ τ : Type} (c : Collaborators σ τ) (svg name : String) (o : Options)
    (st : Collaborators.State σ τ) (m n : String) :
    ((c.optimize svg o.optimizer st.optimizer).1 = .error (.failure m) → ∀ formatted,
      c.result svg name o st true formatted =
        (c.result svg name o st false formatted).map (Result.afterOptimizer svg m) ∧
      ∀ r, c.result svg name o st true formatted = .ok r → r.optimized = false) ∧
    ((∀ source, (c.format source o.formatter o.language st.formatter).1 = .error (.failure n)) →
      ∀ optimized, c.result svg name o st optimized true =
        (c.result svg name o st optimized false).map (Result.afterFormatter svg o.minify n)) ∧
    ((c.optimize svg o.optimizer st.optimizer).1 = .error (.failure m) →
      (∀ source, (c.format source o.formatter o.language st.formatter).1 = .error (.failure n)) →
      c.result svg name o st true true =
        (c.result svg name o st false false).map fun r =>
          (r.afterFormatter svg o.minify n).afterOptimizer svg m) := by
  refine ⟨fun hm formatted => ⟨c.result_optimizer_failed name hm formatted, fun r hr => ?_⟩,
    fun hn optimized => c.result_formatter_failed name hn optimized, fun hm hn => ?_⟩
  · rw [c.result_optimizer_failed name hm formatted] at hr
    cases hoff : c.result svg name o st false formatted with
    | error crash =>
      rw [hoff] at hr
      cases hr
    | ok r' =>
      rw [hoff] at hr
      obtain rfl := Except.ok.inj hr
      exact (result_without_optimizer c.tools name rfl hoff).1
  · rw [c.result_optimizer_failed name hm true, c.result_formatter_failed name hn false]
    cases c.result svg name o st false false <;> rfl

/-- Tools that count their uses and always fail. -/
def brokenTools : Collaborators Nat Nat where
  optimize _ _ count := (.error (.failure "no runtime"), count + 1)
  format _ _ _ count := (.error (.failure "out of order"), count + 1)

theorem convert_fallback_both :
    ∃ r, brokenTools.result "<svg id='a'><g id='b'/></svg>" "Icon" { removeIds := true } ⟨0, 0, []⟩
        false false = .ok r ∧ r.source.isSome = true ∧
      brokenTools.result "<svg id='a'><g id='b'/></svg>" "Icon" { removeIds := true } ⟨0, 0, []⟩
        true true = .ok { r with warnings :=
          [⟨.optimizerFailure, "no runtime"⟩, ⟨.formatterFailure, "out of order"⟩] } := by
  have hboth := (convert_fallback brokenTools "<svg id='a'><g id='b'/></svg>" "Icon"
    { removeIds := true } ⟨0, 0, []⟩ "no runtime" "out of order").2.2 rfl fun _ => rfl
  have hoff : (brokenTools.result "<svg id='a'><g id='b'/></svg>" "Icon" { removeIds := true }
      ⟨0, 0, []⟩ false false).toOption.any (fun r => r.source.isSome && r.error.isNone &&
        r.warnings == []) = true := by decide +kernel
  have hblank : isBlankText "<svg id='a'><g id='b'/></svg>".toList = false := by decide +kernel
  generalize brokenTools.result "<svg id='a'><g id='b'/></svg>" "Icon" { removeIds := true }
    ⟨0, 0, []⟩ false false = result at hboth hoff
  cases result with
  | error crash => cases hoff
  | ok r =>
    simp only [Except.toOption, Option.any_some, Bool.and_eq_true, Option.isNone_iff_eq_none,
      beq_iff_eq] at hoff
    refine ⟨r, rfl, hoff.1.1, hboth.trans ?_⟩
    simp only [Except.map, Result.afterOptimizer, Result.afterFormatter, hblank, hoff.1.2, hoff.2]
    rfl

end SvgComponent
