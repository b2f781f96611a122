import SvgComponent.Cli.Run
import SvgComponent.Proofs.FileWrites
import SvgComponent.Proofs.ToolFailures

/-!
# What a run leaves behind

A run of the program prints the source of the component or writes it to one file; a run that fails
prints nothing on its standard output and leaves all files as they were. That is so whatever reads the
command line and the options file.

* `Arguments.Ends`, `endedInError`: how the conversion that arguments ask for ends.
* `Ending`, `ending_of_command`: the ways in which a run can end.
* `command_effects`: what each exit status says about the files and the standard output.
-/

namespace SvgComponent.Cli

open Settings Files Tool

variable {ε : Type}

/-! ## The conversion of a run -/

/-- The file that arguments name was read, and its conversion with the options of the run came to this
outcome. -/
structure Arguments.Ends (a : Arguments) (reader : DocumentReader ε) (files : FileTree)
    (session : Session) (o : Options) (outcome : Except Crash Result) : Prop where
  options : a.options reader files = .ok (.ok o)
  converted : ∃ svg, readText files a.file = .ok svg ∧
    (convert Tools.session (String.ofList svg) a.componentName (a.working o) session).1 = outcome

/-- Whether a conversion ended in an error, with a result that has one or without a result. -/
def endedInError : Except Crash Result → Bool
  | .ok r => r.hasErrors
  | .error _ => true

theorem convertFile_fst (files : FileTree) (p : Path) (name : String) (o : Options)
    (session : Session) :
    (convertFile Tools.session files p (some name) o session).1 =
      match readText files p with
      | .error e => .error (.read e)
      | .ok svg => (convert Tools.session (String.ofList svg) name o session).1.mapError .crash := by
  unfold convertFile
  cases readText files p with
  | error e => rfl
  | ok svg =>
    dsimp only [Option.getD]
    rw [bind_apply]
    cases (convert Tools.session (String.ofList svg) name o session).1 <;> rfl

section
variable {a : Arguments} {reader : DocumentReader ε} {files : FileTree} {session : Session}
  {o : Options}

theorem ends_of_convertFile {r : Result} (ho : a.options reader files = .ok (.ok o))
    (h : (convertFile Tools.session files a.file (some a.componentName) (a.working o) session).1 =
      .ok r) : a.Ends reader files session o (.ok r) := by
  rw [convertFile_fst] at h
  split at h
  · cases h
  · rename_i svg hsvg
    refine ⟨ho, svg, hsvg, ?_⟩
    generalize (convert Tools.session (String.ofList svg) a.componentName (a.working o) session).1 =
      outcome at h ⊢
    cases outcome with
    | error c => cases h
    | ok r' =>
      cases h
      rfl

theorem Arguments.Ends.convertFile_fst {outcome : Except Crash Result}
    (h : a.Ends reader files session o outcome) :
    (convertFile Tools.session files a.file (some a.componentName) (a.working o) session).1 =
      outcome.mapError .crash := by
  obtain ⟨svg, hsvg, houtcome⟩ := h.converted
  rw [Cli.convertFile_fst, hsvg, ← houtcome]

/-- A conversion without an error has source. -/
theorem Arguments.Ends.exists_source {r : Result} (h : a.Ends reader files session o (.ok r))
    (hr : r.hasErrors = false) : ∃ source, r.source = some source := by
  obtain ⟨svg, -, hresult⟩ := h.converted
  obtain ⟨log, -, haccounts⟩ := records_convert Tools.session (String.ofList svg) a.componentName
    (a.working o) {} session
  have hexclusive := (haccounts r hresult).exclusive
  rw [Result.hasErrors] at hr
  rw [hr] at hexclusive
  exact Option.isSome_iff_exists.1 hexclusive

end

/-! ## The ways in which a run ends -/

/-- The ways in which a run of a command line can end. -/
inductive Ending (readers : Readers ε) (program : String) (arguments : List String) (files : FileTree)
    (session : Session) (run : Run) : Prop
  /-- The program tells how it is used. -/
  | help (asked : readers.arguments arguments = .error .helpWanted) (status : run.status = 0)
    (stdout : run.stdout = helpText program) (kept : run.files = files)
  /-- Something stood in the way of the conversion, or of writing its source. -/
  | failed (status : run.status = 1 ∨ run.status = 2) (stdout : run.stdout = "")
    (kept : run.files = files)
  /-- The conversion ended in an error. -/
  | unconverted {a : Arguments} {o : Options} {r : Result}
    (read : readers.arguments arguments = .ok a)
    (ends : a.Ends readers.document files session o (.ok r)) (error : r.hasErrors = true)
    (status : run.status = 3) (stdout : run.stdout = "") (kept : run.files = files)
  /-- The source was printed. -/
  | printed {a : Arguments} {o : Options} {r : Result} {source : String}
    (read : readers.arguments arguments = .ok a)
    (ends : a.Ends readers.document files session o (.ok r))
    (converted : r.source = some source) (output : a.output = none) (status : run.status = 0)
    (stdout : run.stdout = source ++ "\n") (kept : run.files = files)
  /-- The source was written to a file. -/
  | written {a : Arguments} {o : Options} {r : Result} {source : String} {p target : Path}
    {place : Place} (read : readers.arguments arguments = .ok a)
    (ends : a.Ends readers.document files session o (.ok r))
    (converted : r.source = some source) (output : a.output = some p)
    (directed : outputPath files p a.componentName o = .ok target) (status : run.status = 0)
    (wrote : files.Wrote target (Text.Utf8.encode source.toList) place run.files)

section
variable {readers : Readers ε} {program : String} {arguments : List String} {files : FileTree}
  {session session' : Session} {a : Arguments} {o : Options} {r : Result}
  {source stderr log : String} {run : Run}

theorem ending_of_deliver (hread : readers.arguments arguments = .ok a)
    (hc : a.Ends readers.document files session o (.ok r)) (hs : r.source = some source)
    (h : deliver a o files source stderr session' = .ok run) :
    Ending readers program arguments files session run := by
  unfold deliver at h
  split at h
  · cases h
  split at h
  · rename_i hnone
    cases h
    exact .printed hread hc hs hnone rfl rfl rfl
  · rename_i p hp
    cases htarget : outputPath files p a.componentName o with
    | error e =>
      rw [htarget] at h
      cases h
    | ok target =>
      rw [htarget] at h
      change writeSource target files source stderr session' = .ok run at h
      unfold writeSource at h
      split at h
      · cases h
      · cases h
        exact .failed (.inl rfl) rfl rfl
      · rename_i written hwritten
        cases h
        obtain ⟨place, hwrote⟩ := FileTree.wrote_of_write hwritten
        exact .written hread hc hs hp htarget rfl hwrote

theorem ending_of_conclude (hread : readers.arguments arguments = .ok a)
    (hc : a.Ends readers.document files session o (.ok r))
    (h : conclude a o files r log session' = .ok run) :
    Ending readers program arguments files session run := by
  unfold conclude at h
  cases herror : r.hasErrors with
  | true =>
    simp only [herror, if_true] at h
    cases h
    exact .unconverted hread hc herror rfl rfl rfl
  | false =>
    simp only [herror, Bool.false_eq_true, if_false] at h
    obtain ⟨source, hs⟩ := hc.exists_source herror
    rw [hs] at h
    exact ending_of_deliver hread hc hs h

theorem ending_of_convertAndConclude (hread : readers.arguments arguments = .ok a)
    (ho : a.options readers.document files = .ok (.ok o))
    (h : convertAndConclude a o files session = .ok run) :
    Ending readers program arguments files session run := by
  unfold convertAndConclude at h
  have hends : ∀ r, (convertFile Tools.session files a.file (some a.componentName) (a.working o)
      session).1 = .ok r → a.Ends readers.document files session o (.ok r) :=
    fun r => ends_of_convertFile ho
  simp only [StateT.run] at h
  generalize convertFile Tools.session files a.file (some a.componentName) (a.working o) session =
    result at h hends
  obtain ⟨outcome, session'⟩ := result
  simp only at h hends
  split at h
  · cases h
  · cases h
    exact .failed (.inl rfl) rfl rfl
  · split at h
    · cases h
      exact .failed (.inl rfl) rfl rfl
    · cases h
  · rename_i r
    split at h
    · cases h
    · exact ending_of_conclude hread (hends r rfl) h

theorem ending_of_carryOut (hread : readers.arguments arguments = .ok a)
    (h : carryOut readers.document a files session = .ok run) :
    Ending readers program arguments files session run := by
  unfold carryOut at h
  cases ho : a.options readers.document files with
  | error e =>
    rw [ho] at h
    cases h
  | ok chosen =>
    rw [ho] at h
    cases chosen with
    | error e =>
      cases h
      have hstatus : e.status = 1 ∨ e.status = 2 := by
        cases e
        · exact .inl rfl
        · exact .inl rfl
        · exact .inr rfl
      exact .failed hstatus rfl rfl
    | ok o => exact ending_of_convertAndConclude hread ho h

/-- **A run ends in one of these ways.** -/
theorem ending_of_command (h : command readers program arguments files session = .ok run) :
    Ending readers program arguments files session run := by
  unfold command at h
  split at h
  · rename_i hread
    cases h
    exact .help hread rfl rfl rfl
  · rename_i e hne hread
    cases h
    have hstatus : e.status = 2 := by
      cases e with
      | helpWanted => exact absurd rfl hne
      | _ => rfl
    exact .failed (.inr hstatus) rfl rfl
  · rename_i a hread
    exact ending_of_carryOut hread h

/-- A run that fails leaves the files as they were, and prints nothing on its standard output. -/
theorem Ending.kept_of_ne_zero (h : Ending readers program arguments files session run)
    (hne : run.status ≠ 0) : run.files = files ∧ run.stdout = "" := by
  cases h with
  | help _ status => exact absurd status hne
  | failed _ stdout kept => exact ⟨kept, stdout⟩
  | unconverted _ _ _ _ stdout kept => exact ⟨kept, stdout⟩
  | printed _ _ _ _ status => exact absurd status hne
  | written _ _ _ _ _ status => exact absurd status hne

/-- A run that ends with status 3 has read its file, and the conversion ended in an error. -/
theorem Ending.endedInError_of_three (h : Ending readers program arguments files session run)
    (h3 : run.status = 3) : ∃ a o outcome, readers.arguments arguments = .ok a ∧
      a.Ends readers.document files session o outcome ∧ endedInError outcome = true := by
  cases h with
  | help _ status => omega
  | failed status => omega
  | @unconverted a o r read ends error => exact ⟨a, o, .ok r, read, ends, error⟩
  | printed _ _ _ _ status => omega
  | written _ _ _ _ _ status => omega

/-- A conversion that ends in an error decides the exit status, unless it crashed and the crash is
reported as a fault of the file. -/
theorem status_of_endedInError {outcome : Except Crash Result}
    (hread : readers.arguments arguments = .ok a)
    (hc : a.Ends readers.document files session o outcome) (herror : endedInError outcome = true)
    (hcrash : ∀ c, outcome = .error c → isReported c = false)
    (h : command readers program arguments files session = .ok run) : run.status = 3 := by
  have hfile := hc.convertFile_fst
  unfold command at h
  simp only [hread] at h
  unfold carryOut at h
  rw [hc.options] at h
  change convertAndConclude a o files session = .ok run at h
  unfold convertAndConclude at h
  simp only [StateT.run] at h
  generalize convertFile Tools.session files a.file (some a.componentName) (a.working o) session =
    result at h hfile
  obtain ⟨ending, session'⟩ := result
  cases outcome with
  | error c =>
    obtain rfl : ending = .error (.crash c) := hfile
    simp only [hcrash c rfl, Bool.false_eq_true, if_false] at h
    cases h
  | ok r =>
    obtain rfl : ending = .ok r := hfile
    simp only at h
    split at h
    · cases h
    · unfold conclude at h
      simp only [show r.hasErrors = true from herror, if_true] at h
      cases h
      rfl

/-- Source goes to the given path, or into the given directory under the name of the component. -/
theorem outputPath_eq {p target : Path} {component : String}
    (h : outputPath files p component o = .ok target) :
    ∃ isDirectory, files.isDirectory p = .ok isDirectory ∧
      target = if isDirectory then p.join (Path.ofText (outputName component.toList o.typescript))
        else p := by
  unfold outputPath ask at h
  cases hd : files.isDirectory p with
  | error e =>
    rw [hd] at h
    cases h
  | ok isDirectory =>
    rw [hd] at h
    refine ⟨isDirectory, rfl, ?_⟩
    cases isDirectory with
    | true =>
      cases h
      rfl
    | false =>
      cases h
      rfl

/-- **What a run leaves behind**, whatever reads its command line and its options file. A run that fails
leaves all files as they were and prints nothing on its standard output. One that succeeds tells how
the program is used, if that was asked for, or prints the source of the component, or writes it to one
file. If the exit status is 3, the file was read and its conversion ended in an error; and so it is the
other way round, unless the conversion crashed and the crash is reported as a fault of the file. -/
theorem command_effects (h : command readers program arguments files session = .ok run) :
    (run.status ≠ 0 → run.files = files ∧ run.stdout = "") ∧
    (readers.arguments arguments = .error .helpWanted →
      run.status = 0 ∧ run.files = files ∧ run.stdout = helpText program) ∧
    (run.status = 0 → readers.arguments arguments ≠ .error .helpWanted →
      ∃ a o r source, readers.arguments arguments = .ok a ∧
        a.Ends readers.document files session o (.ok r) ∧ r.source = some source ∧
        (a.output = none → run.files = files ∧ run.stdout = source ++ "\n") ∧
        ∀ p, a.output = some p → ∃ isDirectory place, files.isDirectory p = .ok isDirectory ∧
          files.Wrote
            (if isDirectory then
              p.join (Path.ofText (outputName a.componentName.toList o.typescript))
            else p)
            (Text.Utf8.encode source.toList) place run.files) ∧
    (run.status = 3 → ∃ a o outcome, readers.arguments arguments = .ok a ∧
      a.Ends readers.document files session o outcome ∧ endedInError outcome = true) ∧
    (∀ a o outcome, readers.arguments arguments = .ok a →
      a.Ends readers.document files session o outcome → endedInError outcome = true →
      (∀ c, outcome = .error c → isReported c = false) → run.status = 3) := by
  have hending := ending_of_command h
  refine ⟨hending.kept_of_ne_zero, ?_, ?_, hending.endedInError_of_three,
    fun a o outcome hread hc herror hcrash => status_of_endedInError hread hc herror hcrash h⟩
  · intro hasked
    unfold command at h
    rw [hasked] at h
    cases h
    exact ⟨rfl, rfl, rfl⟩
  · intro h0 hasked
    cases hending with
    | help asked => exact absurd asked hasked
    | failed status => omega
    | unconverted _ _ _ status => omega
    | @printed a o r source read ends converted output _ stdout kept =>
      refine ⟨a, o, r, source, read, ends, converted, fun _ => ⟨kept, stdout⟩, fun p hp => ?_⟩
      rw [output] at hp
      cases hp
    | @written a o r source p target place read ends converted output directed _ wrote =>
      refine ⟨a, o, r, source, read, ends, converted, fun hnone => ?_, fun p' hp => ?_⟩
      · rw [output] at hnone
        cases hnone
      · obtain rfl : p = p' := Option.some.inj (output.symm.trans hp)
        obtain ⟨isDirectory, hdirectory, rfl⟩ := outputPath_eq directed
        exact ⟨isDirectory, place, hdirectory, wrote⟩

end

/-- Files to try the program on: an icon, and a directory with a link to it. -/
def iconFiles : FileTree :=
  ⟨[([["a-b.svg".toList]], .file (Text.Utf8.encode "<svg/>".toList) { writable := false }),
    ([["out".toList]], .directory), ([["icons".toList]], .link ⟨[], ["out".toList]⟩)]⟩

/-- A run comes to a status and passes a check if what the command line comes to does. -/
theorem exists_command_of_any (arguments : List String) (session : Session) (p : Run → Bool)
    (h : (command .standard "svg_to_jsx.py" arguments iconFiles session).toOption.any p = true) :
    ∃ run, command .standard "svg_to_jsx.py" arguments iconFiles session = .ok run ∧ p run = true := by
  cases hc : command .standard "svg_to_jsx.py" arguments iconFiles session with
  | error e => simp [hc, Except.toOption] at h
  | ok run => exact ⟨run, rfl, by simpa [hc, Except.toOption] using h⟩

/-- Arguments that name the icon. -/
def iconArguments (output : Option Path) : Arguments := { file := ⟨[], ["a-b.svg".toList]⟩, output }

theorem command_effects_link :
    ∃ run source, command .standard "svg_to_jsx.py" ["a-b.svg", "-o", "icons"] iconFiles {} = .ok run ∧
      iconFiles.Wrote ⟨[], ["icons".toList, "AB.tsx".toList]⟩ (Text.Utf8.encode source)
        ["out".toList, "AB.tsx".toList] run.files := by
  obtain ⟨run, h, hrun⟩ := exists_command_of_any ["a-b.svg", "-o", "icons"] {} (·.status == 0)
    (by decide +kernel)
  have hread : readArguments ["a-b.svg", "-o", "icons"] =
      .ok (iconArguments (some ⟨[], ["icons".toList]⟩)) := by decide +kernel
  have hdirectory : iconFiles.isDirectory ⟨[], ["icons".toList]⟩ = .ok true := by decide +kernel
  have hoptions : (iconArguments (some ⟨[], ["icons".toList]⟩)).options Yaml.reader iconFiles =
      .ok (.ok (({} : Options).override {})) := rfl
  have htarget : Path.join ⟨[], ["icons".toList]⟩ (Path.ofText
      (outputName (iconArguments (some ⟨[], ["icons".toList]⟩)).componentName.toList true)) =
      ⟨[], ["icons".toList, "AB.tsx".toList]⟩ := by decide +kernel
  have hplace : iconFiles.locate ⟨[], ["icons".toList, "AB.tsx".toList]⟩ =
      .ok (["out".toList, "AB.tsx".toList], none) := by decide +kernel
  obtain ⟨-, -, hwritten, -, -⟩ := command_effects h
  obtain ⟨a, o, r, source, ha, hc, -, -, hout⟩ := hwritten (by simpa using hrun) (by
    intro hasked
    cases hread.symm.trans hasked)
  obtain rfl : _ = a := Except.ok.inj (hread.symm.trans ha)
  obtain ⟨isDirectory, place, hfound, hwrote⟩ := hout ⟨[], ["icons".toList]⟩ rfl
  obtain rfl : true = isDirectory := Except.ok.inj (hdirectory.symm.trans hfound)
  obtain rfl : _ = o := Except.ok.inj (Except.ok.inj (hoptions.symm.trans hc.options))
  rw [if_pos rfl] at hwrote
  change iconFiles.Wrote (Path.join ⟨[], ["icons".toList]⟩ (Path.ofText
    (outputName (iconArguments (some ⟨[], ["icons".toList]⟩)).componentName.toList true))) _ _ _ at hwrote
  rw [htarget] at hwrote
  obtain ⟨old, hold⟩ := hwrote.located
  obtain ⟨rfl, -⟩ := Prod.mk.inj (Except.ok.inj (hplace.symm.trans hold))
  exact ⟨run, source.toList, h, hwrote⟩

/-- Replies of a tool whose program may not be run, and of one that does not put out text. -/
def fatalReplies : List Reply := [.denied, .undecodable ⟨0, 1, 0xff, .badStart⟩]

/-- A run that tells how the program is used succeeds, and does not print the source of the component
that its arguments name. A run whose optimizer may not be run, or does not put out text, has read the
file, and its conversion ended in an error, but it is taken for one that has not read the file. -/
theorem command_help_denied :
    (∃ run o r source,
      command .standard "svg_to_jsx.py" ["a-b.svg", "--help"] iconFiles {} = .ok run ∧
      run.status = 0 ∧ (iconArguments none).Ends Yaml.reader iconFiles {} o (.ok r) ∧
      r.source = some source ∧ run.stdout ≠ source ++ "\n") ∧
    ∀ reply ∈ fatalReplies, ∃ run o outcome,
      command .standard "svg_to_jsx.py" ["a-b.svg", "--optimize"] iconFiles { replies := [reply] } =
        .ok run ∧
      { iconArguments none with overrides := { optimizeSvg := some true } }.Ends Yaml.reader iconFiles
        { replies := [reply] } o outcome ∧
      endedInError outcome = true ∧ run.status ≠ 3 := by
  have hread : readText iconFiles (iconArguments none).file = .ok "<svg/>".toList := by decide +kernel
  have hname : (iconArguments none).componentName = "AB" := by decide +kernel
  constructor
  · have hasked : Readers.standard.arguments ["a-b.svg", "--help"] = .error .helpWanted := by
      decide +kernel
    have hconverted : (convert Tools.session "<svg/>" "AB" (({} : Options).override {})
        {}).1.toOption.any (fun r => r.source.any (helpText "svg_to_jsx.py" != · ++ "\n")) = true := by
      decide +kernel
    cases hc : (convert Tools.session "<svg/>" "AB" (({} : Options).override {}) {}).1 with
    | error e =>
      rw [hc] at hconverted
      cases hconverted
    | ok r =>
      rw [hc] at hconverted
      change r.source.any _ = true at hconverted
      cases hs : r.source with
      | none =>
        rw [hs] at hconverted
        cases hconverted
      | some source =>
        rw [hs] at hconverted
        refine ⟨_, _, r, source, by unfold command; rw [hasked], rfl,
          ⟨rfl, _, hread, ?_⟩, hs, by simpa using hconverted⟩
        rw [hname, String.ofList_toList]
        exact hc
  · intro reply hreply
    have hruns : ∀ reply ∈ fatalReplies,
        (command .standard "svg_to_jsx.py" ["a-b.svg", "--optimize"] iconFiles
          { replies := [reply] }).toOption.any (·.status == 1) = true := by decide +kernel
    have hends : ∀ reply ∈ fatalReplies,
        endedInError (convert Tools.session "<svg/>" "AB"
          (({} : Options).override { optimizeSvg := some true }) { replies := [reply] }).1 = true := by
      decide +kernel
    obtain ⟨run, h, hrun⟩ := exists_command_of_any _ _ (·.status == 1) (hruns reply hreply)
    refine ⟨run, ({} : Options).override { optimizeSvg := some true }, _, h, ⟨rfl, _, hread, rfl⟩, ?_, ?_⟩
    · change endedInError (convert Tools.session _ (iconArguments none).componentName _ _).1 = true
      rw [String.ofList_toList, hname]
      exact hends reply hreply
    · rw [beq_iff_eq.1 hrun]
      decide

end SvgComponent.Cli
