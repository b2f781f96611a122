import SvgComponent.Proofs.ToolFailures

/-!
# Conversions in a session

In a session both tools are programs, and whatever replies they get are given. A program that is missing, that
does not end in time, that ends badly or that writes nothing makes its tool fail, and then the conversion goes
on without it. A program that may not be run or that writes what is not text does not: it ends the conversion,
as do a missing formatter that has no name, a request or an argument that cannot be written and a width that
source cannot be indented by.

* `Reply.output?`, `Reply.isFatal`: the output of a reply that can be used, and replies that no tool survives.
* `Blocked`: all that ends a conversion in a session without a result.
* `Recovers`, `recovers_iff`: the conversion has a result, and makes up for tools without output, exactly
  if it is not blocked.
-/

namespace SvgComponent.Tool

open Settings

/-! ## Replies -/

/-- The output of a reply that can be used: the program ended well and wrote more than blanks. -/
def Reply.output? : Reply → Option String
  | .finished status stdout _ =>
    if status = 0 ∧ Text.isBlankText stdout.toList = false then some stdout else none
  | _ => none

/-- Replies that no tool survives: the program may not be run, or what it wrote is not text. -/
def Reply.isFatal : Reply → Bool
  | .denied => true
  | .undecodable _ => true
  | _ => false

/-- The reply to the call number `n` from now on. -/
def Session.reply (s : Session) (n : Nat) : Reply := s.replies.getD n .missing

/-- The session without its next reply. -/
def Session.skip (s : Session) : Session := { s with replies := s.replies.tail }

theorem Session.reply_zero_skip (s : Session) : s.skip.reply 0 = s.reply 1 := by
  unfold Session.reply Session.skip
  cases s.replies <;> simp

section

variable (what : String) (absent : ToolError) (timeout : Float)

theorem outputOf_of_output {reply : Reply} {output : String} (h : reply.output? = some output) :
    outputOf what absent timeout reply = .ok output := by
  cases reply with
  | finished status stdout stderr =>
    simp only [Reply.output?] at h
    split at h
    · rename_i hok
      obtain rfl := Option.some.inj h
      simp [outputOf, hok.1, hok.2]
    · cases h
  | missing => cases h
  | timedOut => cases h
  | denied => cases h
  | undecodable fault => cases h

theorem exists_crash_of_isFatal {reply : Reply} (h : reply.isFatal = true) :
    ∃ c, outputOf what absent timeout reply = .error (.crash c) := by
  cases reply with
  | denied => exact ⟨_, rfl⟩
  | undecodable fault => exact ⟨_, rfl⟩
  | missing => cases h
  | timedOut => cases h
  | finished status stdout stderr => cases h

/-- Whatever a program does, its tool fails if there is no output, unless the reply is one that no tool
survives, or the program is missing and the tool cannot do without it. -/
theorem exists_outputOf {reply : Reply} (h : reply.output? = none) (hf : reply.isFatal = false)
    (ha : reply = .missing → ∃ message, absent = .failure message) :
    ∃ message, outputOf what absent timeout reply = .error (.failure message) := by
  cases reply with
  | finished status stdout stderr =>
    simp only [outputOf]
    split
    · exact ⟨_, rfl⟩
    split
    · exact ⟨_, rfl⟩
    · rename_i hstatus hblank
      simp_all [Reply.output?]
  | missing =>
    obtain ⟨message, rfl⟩ := ha rfl
    exact ⟨message, rfl⟩
  | timedOut => exact ⟨_, rfl⟩
  | denied => cases hf
  | undecodable fault => cases hf

end

/-! ## The two tools -/

theorem Session.call_eq (c : Call) (s : Session) :
    Session.call c s = (s.reply 0, { s.skip with calls := s.calls ++ [c] }) := by
  unfold Session.call Session.reply Session.skip
  cases h : s.replies <;> simp

/-- An optimizer that can be asked gets the next reply. -/
theorem session_optimize {svg : String} {o : OptimizerOptions} {input : String}
    (h : (Optimizer.request svg o).json = .ok input) (s : Session) :
    (Tools.session.optimize svg o s).1 =
        outputOf "Optimizer" (.failure ("Optimizer runtime not found: " ++ o.node)) o.timeout
          (s.reply 0) ∧
      (Tools.session.optimize svg o s).2.replies = s.replies.tail := by
  simp only [Tools.session, Optimizer.run, h]
  rw [bind_apply, bind_apply, Session.call_eq]
  exact ⟨rfl, rfl⟩

theorem session_optimize_unwritable {svg : String} {o : OptimizerOptions} {e : JsonError}
    (h : (Optimizer.request svg o).json = .error e) (s : Session) :
    (Tools.session.optimize svg o s).1 = .error (.crash (.unwritable e)) := by
  simp only [Tools.session, Optimizer.run, h]
  rfl

/-- Whether the widths can be written as arguments of the formatter. -/
def widthsShowable (o : FormatterOptions) : Bool :=
  Number.isShowable o.printWidth && Number.isShowable o.tabWidth

/-- A formatter that can be asked gets the next reply. -/
theorem session_format (source : String) (o : FormatterOptions) (language : Language) (s : Session) :
    (Tools.session.format source o language s).1 =
      if widthsShowable o then outputOf "Formatter" (Formatter.absence o) o.timeout (s.reply 0)
      else .error (.crash .argumentTooLong) := by
  change (Formatter.run source o language s).1 = _
  unfold Formatter.run widthsShowable
  split
  · rw [bind_apply, bind_apply, Session.call_eq]
    rfl
  · rfl

/-- A formatter with a name can be missing. -/
theorem exists_absence {o : FormatterOptions} (h : o.command ≠ []) :
    ∃ message, Formatter.absence o = .failure message := by
  unfold Formatter.absence
  split
  · rename_i hnone
    exact absurd hnone h
  · exact ⟨_, rfl⟩

end SvgComponent.Tool

namespace SvgComponent

open Settings Tool Text

/-! ## What ends a conversion -/

section

variable (svg name : String) (o : Options) (s : Session)

/-- The optimizer is needed, but cannot be asked or does not survive the reply. -/
def OptimizerBlocked : Prop :=
  o.optimizeSvg = true ∧
    ((∃ e, (Optimizer.request svg o.optimizer).json = .error e) ∨ (s.reply 0).isFatal = true)

/-- The markup that is read, and whether it is the optimizer's. -/
def markupRead : String × Bool :=
  match o.optimizeSvg, (s.reply 0).output? with
  | true, some optimized => (optimized, true)
  | _, _ => (svg, false)

/-- The reply that the formatter gets: it comes behind that to the optimizer. -/
def formatterReply : Reply := s.reply (if o.optimizeSvg then 1 else 0)

/-- The formatter cannot be asked, or does not survive the reply: nor does it if its program is missing and
has no name. -/
def FormatterBlocked : Prop :=
  widthsShowable o.formatter = false ∨ (formatterReply o s).isFatal = true ∨
    formatterReply o s = .missing ∧ o.formatter.command = []

/-- Source cannot be finished: the formatter is needed, but blocked, or the source is to be indented by a width
that has no text. -/
def FinishBlocked : Prop :=
  o.minify = false ∧
    (o.useFormatter = true ∧ FormatterBlocked o s ∨
      (o.useFormatter = true → (formatterReply o s).output? = none) ∧
        ∃ e, (indentStyle o.formatter).unit = .error e)

/-- All that ends the conversion of markup that is not blank. -/
def Blocked : Prop :=
  OptimizerBlocked svg o s ∨
    ∃ source, sourceOf (markupRead svg o s).1 name o (markupRead svg o s).2 = .ok source ∧
      FinishBlocked o s

end

section

variable {svg name : String} {o : Options} {s : Session}

theorem prepare_of_blocked (h : OptimizerBlocked svg o s) :
    ∃ c, (prepare Tools.session o svg s).1.outcome = .error c := by
  obtain ⟨ho, hcause⟩ := h
  rw [prepare_fst _ _ _ ho]
  cases hjson : (Optimizer.request svg o.optimizer).json with
  | error e =>
    rw [session_optimize_unwritable hjson]
    exact ⟨_, rfl⟩
  | ok input =>
    rcases hcause with ⟨e, he⟩ | hfatal
    · rw [hjson] at he
      cases he
    · obtain ⟨c, hc⟩ := exists_crash_of_isFatal "Optimizer"
        (.failure ("Optimizer runtime not found: " ++ o.optimizer.node)) o.optimizer.timeout hfatal
      rw [(session_optimize hjson s).1, hc]
      exact ⟨c, rfl⟩

/-- What is known of the optimizer if it is not blocked. -/
theorem optimizer_of_not_blocked (h : ¬ OptimizerBlocked svg o s) (ho : o.optimizeSvg = true) :
    (∃ input, (Optimizer.request svg o.optimizer).json = .ok input) ∧
      ((s.reply 0).output? = none → ∃ message,
        outputOf "Optimizer" (.failure ("Optimizer runtime not found: " ++ o.optimizer.node))
          o.optimizer.timeout (s.reply 0) = .error (.failure message)) := by
  simp only [OptimizerBlocked, ho, true_and, not_or, not_exists, Bool.not_eq_true] at h
  obtain ⟨hwritable, hfatal⟩ := h
  refine ⟨?_, fun hout => exists_outputOf _ _ _ hout hfatal fun _ => ⟨_, rfl⟩⟩
  cases hjson : (Optimizer.request svg o.optimizer).json with
  | error e => exact absurd hjson (hwritable e)
  | ok input => exact ⟨input, rfl⟩

/-- What is known of the formatter if it is not blocked. -/
theorem formatter_of_not_blocked (h : ¬ FormatterBlocked o s) :
    widthsShowable o.formatter = true ∧
      ((formatterReply o s).output? = none → ∃ message,
        outputOf "Formatter" (Formatter.absence o.formatter) o.formatter.timeout
          (formatterReply o s) = .error (.failure message)) := by
  simp only [FormatterBlocked, not_or, not_and, Bool.not_eq_true, Bool.not_eq_false] at h
  obtain ⟨hwidths, hfatal, hnamed⟩ := h
  exact ⟨hwidths, fun hout => exists_outputOf _ _ _ hout hfatal fun hm => exists_absence (hnamed hm)⟩

/-- A formatter that is blocked ends the conversion. -/
theorem format_of_blocked (h : FormatterBlocked o s) :
    ∃ c, (if widthsShowable o.formatter then
        outputOf "Formatter" (Formatter.absence o.formatter) o.formatter.timeout (formatterReply o s)
      else .error (.crash .argumentTooLong)) = .error (.crash c) := by
  cases hw : widthsShowable o.formatter with
  | false => exact ⟨_, rfl⟩
  | true =>
    rw [if_pos rfl]
    rcases h with h | h | ⟨hmissing, hnone⟩
    · rw [hw] at h
      cases h
    · exact exists_crash_of_isFatal _ _ _ h
    · refine ⟨.commandEmpty, ?_⟩
      rw [hmissing, outputOf, Formatter.absence, hnone]

theorem replies_prepare (h : ¬ OptimizerBlocked svg o s) :
    (prepare Tools.session o svg s).2.replies =
      if o.optimizeSvg then s.replies.tail else s.replies := by
  cases ho : o.optimizeSvg with
  | false => rw [prepare_without _ _ _ ho]; rfl
  | true =>
    obtain ⟨⟨input, hjson⟩, -⟩ := optimizer_of_not_blocked h ho
    simp only [prepare, ho, if_true]
    rw [bind_apply, ← (session_optimize hjson s).2]
    rcases Tools.session.optimize svg o.optimizer s with ⟨(message | crash) | optimized, s'⟩ <;> rfl

theorem reply_prepare (h : ¬ OptimizerBlocked svg o s) :
    (prepare Tools.session o svg s).2.reply 0 = formatterReply o s := by
  rw [Session.reply, replies_prepare h, formatterReply]
  cases o.optimizeSvg with
  | false => rfl
  | true => exact s.reply_zero_skip

theorem prepare_of_not_blocked (h : ¬ OptimizerBlocked svg o s) :
    (prepare Tools.session o svg s).1.outcome = .ok (markupRead svg o s) := by
  unfold markupRead
  cases ho : o.optimizeSvg with
  | false => rw [prepare_without _ _ _ ho]
  | true =>
    obtain ⟨⟨input, hjson⟩, hfails⟩ := optimizer_of_not_blocked h ho
    rw [prepare_fst _ _ _ ho]
    rw [(session_optimize hjson s).1]
    cases hout : (s.reply 0).output? with
    | some output => rw [outputOf_of_output _ _ _ hout]; rfl
    | none =>
      obtain ⟨message, hm⟩ := hfails hout
      rw [hm]
      rfl

/-- Source cannot be indented by a width that has no text. -/
theorem indented_eq (o : Options) (source : String) :
    (∃ c, indented o source = .error c) ↔ ∃ e, (indentStyle o.formatter).unit = .error e := by
  unfold indented Source.indent
  cases (indentStyle o.formatter).unit with
  | error e => exact ⟨fun _ => ⟨e, rfl⟩, fun _ => ⟨.indentation e, rfl⟩⟩
  | ok unit => simp [Except.map]

/-- **Source can be finished** unless something stands in the way. -/
theorem finish_error_iff {st : Session} (hst : st.reply 0 = formatterReply o s) (source : String) :
    (∃ c, (finish Tools.session o source st).1.outcome = .error c) ↔ FinishBlocked o s := by
  unfold FinishBlocked
  cases hm : o.minify with
  | true =>
    rw [finish_minified _ _ _ hm]
    simp
  | false =>
    cases hf : o.useFormatter with
    | false =>
      rw [finish_without _ _ _ hm hf]
      simpa using indented_eq o source
    | true =>
      rw [finish_fst _ _ _ hm hf]
      rw [session_format, hst]
      by_cases hblocked : FormatterBlocked o s
      · obtain ⟨c, hc⟩ := format_of_blocked hblocked
        rw [hc]
        simp [finishedBy, hblocked]
      · obtain ⟨hwidths, hfails⟩ := formatter_of_not_blocked hblocked
        rw [if_pos hwidths]
        cases hout : (formatterReply o s).output? with
        | some output =>
          rw [outputOf_of_output _ _ _ hout]
          simp [finishedBy, hblocked]
        | none =>
          obtain ⟨message, hmessage⟩ := hfails hout
          rw [hmessage]
          simpa [finishedBy, hblocked] using indented_eq o source

/-! ## Making up for tools -/

/-- **A conversion has a result** unless it is blocked. -/
theorem convert_ok_iff (hb : isBlankText svg.toList = false) :
    (∃ r, (convert Tools.session svg name o s).1 = .ok r) ↔ ¬ Blocked svg name o s := by
  rw [convert_fst _ _ _ hb]
  constructor
  · rintro ⟨r, hr⟩ hblocked
    obtain ⟨markup, optimized, hp, hrest⟩ := resultOf_eq_ok hr
    rcases hblocked with h | ⟨source, hs, h⟩
    · obtain ⟨c, hc⟩ := prepare_of_blocked h
      rw [hp] at hc
      cases hc
    · by_cases ho : OptimizerBlocked svg o s
      · obtain ⟨c, hc⟩ := prepare_of_blocked ho
        rw [hp] at hc
        cases hc
      · rw [prepare_of_not_blocked ho, Except.ok.injEq] at hp
        rw [hp] at hs
        rcases hrest with ⟨d, hd, -⟩ | ⟨source', final, hs', hfinal, -⟩
        · rw [hs] at hd
          cases hd
        · obtain ⟨c, hc⟩ := (finish_error_iff (reply_prepare ho) source').2 h
          rw [hfinal] at hc
          cases hc
  · intro h
    simp only [Blocked, not_or, not_exists, not_and] at h
    unfold resultOf
    rw [prepare_of_not_blocked h.1]
    cases hs : sourceOf (markupRead svg o s).1 name o (markupRead svg o s).2 with
    | error d => simp [hs]
    | ok source =>
      simp only [hs]
      cases hf : (finish Tools.session o source (prepare Tools.session o svg s).2).1.outcome with
      | error c => exact absurd ((finish_error_iff (reply_prepare h.1) source).1 ⟨c, hf⟩) (h.2 source hs)
      | ok final => exact ⟨_, rfl⟩

end

/-- A conversion that makes up for its tools: it has a result, and where a tool was called and gave no output,
that is the result of the same conversion with the tool switched off and one warning more. -/
def Recovers (svg name : String) (o : Options) (s : Session) : Prop :=
  ∃ r, (convert Tools.session svg name o s).1 = .ok r ∧
    (o.optimizeSvg = true → isBlankText svg.toList = false → (s.reply 0).output? = none →
      ∃ message r', (convert Tools.session svg name { o with optimizeSvg := false } s.skip).1 = .ok r' ∧
        (∀ d ∈ r'.warnings, d.kind ≠ .optimizerFailure) ∧ r'.optimized = false ∧
        r = { r' with warnings := ⟨.optimizerFailure, message⟩ :: r'.warnings }) ∧
    (o.useFormatter = true → o.minify = false → isBlankText svg.toList = false → r.error = none →
      (formatterReply o s).output? = none →
      ∃ message r', (convert Tools.session svg name { o with useFormatter := false } s).1 = .ok r' ∧
        (∀ d ∈ r'.warnings, d.kind ≠ .formatterFailure) ∧
        r = { r' with warnings := r'.warnings ++ [⟨.formatterFailure, message⟩] })

section

variable {svg name : String} {o : Options} {s : Session} {r : Result}

theorem recovers_optimizer (hb : isBlankText svg.toList = false) (h : ¬ OptimizerBlocked svg o s)
    (hr : (convert Tools.session svg name o s).1 = .ok r) (ho : o.optimizeSvg = true)
    (hout : (s.reply 0).output? = none) :
    ∃ message r', (convert Tools.session svg name { o with optimizeSvg := false } s.skip).1 = .ok r' ∧
      (∀ d ∈ r'.warnings, d.kind ≠ .optimizerFailure) ∧ r'.optimized = false ∧
      r = { r' with warnings := ⟨.optimizerFailure, message⟩ :: r'.warnings } := by
  obtain ⟨⟨input, hjson⟩, hfails⟩ := optimizer_of_not_blocked h ho
  obtain ⟨message, hm⟩ := hfails hout
  have hfail : (Tools.session.optimize svg o.optimizer s).1 = .error (.failure message) :=
    (session_optimize hjson s).1.trans hm
  -- the formatter gets the same reply in both conversions
  have hformat : ∀ source, (Tools.session.format source o.formatter o.language
      (prepare Tools.session o svg s).2).1 =
      (Tools.session.format source o.formatter o.language s.skip).1 := by
    intro source
    rw [session_format, session_format, reply_prepare h, Session.reply_zero_skip, formatterReply,
      if_pos ho]
  rw [convert_optimizer_failed _ name hb ho hfail hformat] at hr
  cases hoff : (convert Tools.session svg name { o with optimizeSvg := false } s.skip).1 with
  | error c =>
    rw [hoff] at hr
    cases hr
  | ok r' =>
    rw [hoff] at hr
    obtain ⟨hopt, hkinds⟩ := result_without_optimizer _ _ rfl hoff
    exact ⟨message, r', rfl, hkinds, hopt, (Except.ok.inj hr).symm⟩

theorem recovers_formatter (hb : isBlankText svg.toList = false) (h : ¬ Blocked svg name o s)
    (hr : (convert Tools.session svg name o s).1 = .ok r) (hf : o.useFormatter = true)
    (hm : o.minify = false) (herror : r.error = none) (hout : (formatterReply o s).output? = none) :
    ∃ message r', (convert Tools.session svg name { o with useFormatter := false } s).1 = .ok r' ∧
      (∀ d ∈ r'.warnings, d.kind ≠ .formatterFailure) ∧
      r = { r' with warnings := r'.warnings ++ [⟨.formatterFailure, message⟩] } := by
  simp only [Blocked, not_or, not_exists, not_and] at h
  -- there was source to be finished, so the formatter could be asked and run
  have hfinish : ¬ FinishBlocked o s := by
    have hr' := hr
    rw [convert_fst _ _ _ hb] at hr'
    obtain ⟨markup, optimized, hp, hrest⟩ := resultOf_eq_ok hr'
    rw [prepare_of_not_blocked h.1, Except.ok.injEq] at hp
    rcases hrest with ⟨d, -, hd⟩ | ⟨source, -, hs, -⟩
    · rw [herror] at hd
      cases hd
    · exact h.2 source (by rw [hp]; exact hs)
  have hformatter : ¬ FormatterBlocked o s := by
    simp only [FinishBlocked, hm, hf, true_and, not_or] at hfinish
    exact hfinish.1
  obtain ⟨hwidths, hfails⟩ := formatter_of_not_blocked hformatter
  obtain ⟨message, hmessage⟩ := hfails hout
  have hfail : ∀ source, (Tools.session.format source o.formatter o.language
      (prepare Tools.session o svg s).2).1 = .error (.failure message) := by
    intro source
    rw [session_format, if_pos hwidths, reply_prepare h.1, hmessage]
  rw [convert_formatter_failed _ name hb hf hm hfail] at hr
  cases hoff : (convert Tools.session svg name { o with useFormatter := false } s).1 with
  | error c =>
    rw [hoff] at hr
    cases hr
  | ok r' =>
    rw [hoff] at hr
    obtain rfl := Except.ok.inj hr
    have hnone : r'.error.isNone = true := by simpa using herror
    exact ⟨message, r', rfl, result_without_formatter _ _ rfl hoff, by simp [hnone]⟩

end

/-- **A conversion makes up for its tools** exactly if there is nothing to convert or nothing that blocks it. -/
theorem recovers_iff (svg name : String) (o : Options) (s : Session) :
    Recovers svg name o s ↔ isBlankText svg.toList = true ∨ ¬ Blocked svg name o s := by
  cases hb : isBlankText svg.toList with
  | true =>
    simp only [true_or, iff_true]
    exact ⟨_, convert_blank _ _ _ hb s, by simp [hb], by simp [hb]⟩
  | false =>
    simp only [Bool.false_eq_true, false_or]
    constructor
    · rintro ⟨r, hr, -⟩
      exact (convert_ok_iff hb).1 ⟨r, hr⟩
    · intro h
      obtain ⟨r, hr⟩ := (convert_ok_iff hb).2 h
      exact ⟨r, hr, fun ho _ => recovers_optimizer hb (fun hn => h (.inl hn)) hr ho,
        fun hf hm _ => recovers_formatter hb h hr hf hm⟩

/-- An optimizer that may not be run ends the conversion, which is then not made up for. -/
theorem not_recovers_denied :
    (convert Tools.session "<svg/>" "Icon" { optimizeSvg := true } { replies := [.denied] }).1 =
        .error .permissionDenied ∧
      ¬ Recovers "<svg/>" "Icon" { optimizeSvg := true } { replies := [.denied] } := by
  have hb : isBlankText "<svg/>".toList = false := by decide
  have hjson : (Optimizer.request "<svg/>" {}).json.toOption.isSome = true := by decide +kernel
  have hcrash : (convert Tools.session "<svg/>" "Icon" { optimizeSvg := true }
      { replies := [.denied] }).1 = .error .permissionDenied := by
    rw [convert_fst _ _ _ hb, prepare_fst _ _ _ rfl]
    cases h : (Optimizer.request "<svg/>" {}).json with
    | error e =>
      rw [h] at hjson
      cases hjson
    | ok input =>
      rw [(session_optimize h _).1]
      rfl
  refine ⟨hcrash, ?_⟩
  rintro ⟨r, hr, -⟩
  rw [hcrash] at hr
  cases hr

end SvgComponent
