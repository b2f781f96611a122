import SvgComponent.Cli.Usage
import SvgComponent.FileConversion
import SvgComponent.Settings.File
import SvgComponent.Yaml.Document

/-!
# Runs of the program

A run converts one file. What it does to the world is a value: its exit status, what it prints, the
files behind it, and the session with the tools.

* `Run`: a run that has ended.
* `Abort`: what ends a run before it has come to a status.
* `carryOut`: the run that arguments ask for.
* `Readers`, `command`: the run of a whole command line, whatever reads it and its options files.
-/

namespace SvgComponent.Cli

open Settings Files Tool

/-- A run that has ended. -/
structure Run where
  status : Nat
  stdout : String := ""
  stderr : String := ""
  /-- The files behind the run. -/
  files : FileTree
  session : Session

/-- What ends a run without a status. -/
inductive Abort where
  /-- The file system cannot be asked for a path. -/
  | path (e : PathError) (p : Path)
  /-- An option without a value is needed. -/
  | unset (setting : Setting)
  | crash (c : Crash)
  deriving DecidableEq, Repr

/-- The wording of what ends a run. -/
def Abort.message : Abort → String
  | .path e p => e.message p
  | .unset setting => setting.label ++ " has no value"
  | .crash c => c.report

/-- The answer to a question about a path, which ends the run if there is none. -/
def ask {α : Type} (p : Path) (answer : Except FileError α) : Except Abort α :=
  answer.mapError fun e => .path (.file e) p

/-- Whether an option was left without a value. -/
def Arguments.lacks (a : Arguments) (setting : Setting) : Bool := a.unset.contains setting

/-- Why a run stops before it converts anything. -/
inductive Refusal where
  | noFile (p : Path)
  | noConfig (p : Path)
  | badConfig (reason : String)

/-- The exit status of a refusal. -/
def Refusal.status : Refusal → Nat
  | .noFile _ => 1
  | .noConfig _ => 1
  | .badConfig _ => 2

/-- The wording of a refusal. -/
def Refusal.message : Refusal → String
  | .noFile p => "SVG file not found: " ++ String.ofList p.text
  | .noConfig p => "Options file not found: " ++ String.ofList p.text
  | .badConfig reason => "Failed to parse options: " ++ reason

/-- An error as it is printed. -/
def errorLine (message : String) : String := "Error: " ++ message ++ "\n"

/-- The options of a run: those of the options file, if there is one, with the ones that the command
line sets. -/
def Arguments.options {ε : Type} (a : Arguments) (reader : DocumentReader ε) (files : FileTree) :
    Except Abort (Except Refusal Options) := do
  if ← ask a.file (files.has a.file) then
    if a.lacks .config then throw (.unset .config)
    else match a.config with
      | none => return .ok (({} : Options).override a.overrides)
      | some p =>
        if ← ask p (files.has p) then
          match readOptionsFile reader files p with
          | .error e => return .error (.badConfig (e.message reader p))
          | .ok o => return .ok (o.override a.overrides)
        else return .error (.noConfig p)
  else return .error (.noFile a.file)

/-- The name of the component: the one given, unless it is empty, or the one from the file. -/
def Arguments.componentName (a : Arguments) : String :=
  match a.name with
  | some name => if name.isEmpty then String.ofList a.file.componentName else name
  | none => String.ofList a.file.componentName

/-- The log of a session as it is printed: all of it, or only the warnings. -/
def logText (verbose : Bool) (log : List LogEntry) : String :=
  String.join ((log.filter fun e => verbose || e.level == .warning).map LogEntry.line)

/-- The path that is written to: a directory gets a file that is named for the component. -/
def outputPath (files : FileTree) (p : Path) (component : String) (o : Options) :
    Except Abort Path := do
  if ← ask p (files.isDirectory p) then
    return p.join (Path.ofText (outputName component.toList o.typescript))
  else return p

/-- The run that writes the source of a component to a path, with `stderr` printed before. -/
def writeSource (p : Path) (files : FileTree) (source stderr : String) (session : Session) :
    Except Abort Run :=
  match files.write p (Text.Utf8.encode source.toList) with
  | .error .nullCharacter => .error (.path .nullCharacter p)
  | .error (.file e) =>
    let stderr := stderr ++ errorLine ("Failed to write output: " ++ e.message p)
    .ok { status := 1, stderr, files, session }
  | .ok written =>
    let stdout := "Output written to: " ++ String.ofList p.text ++ "\n"
    .ok { status := 0, stdout, stderr, files := written, session }

/-- The run that puts out the source of a component, with `stderr` printed before. -/
def deliver (a : Arguments) (o : Options) (files : FileTree) (source stderr : String)
    (session : Session) : Except Abort Run := do
  if a.lacks .output then throw (.unset .output)
  else match a.output with
    | none => return { status := 0, stdout := source ++ "\n", stderr, files, session }
    | some p => writeSource (← outputPath files p a.componentName o) files source stderr session

/-- The run for a conversion that has ended, with `log` printed before. -/
def conclude (a : Arguments) (o : Options) (files : FileTree) (r : Result) (log : String)
    (session : Session) : Except Abort Run :=
  let stderr :=
    if r.hasErrors || !r.warnings.isEmpty then log ++ r.report ++ "\n" else log
  if r.hasErrors then .ok { status := 3, stderr, files, session }
  else deliver a o files (r.source.getD "") stderr session

/-- Whether a crash is taken for a fault of the file that is converted, which a run reports. -/
def isReported : Crash → Bool
  | .permissionDenied => true
  | .undecodable _ => true
  | _ => false

/-- The options that a run converts with. Source that has no quotation marks is never put out, so
the shortest form will do for it. -/
def Arguments.working (a : Arguments) (o : Options) : Options :=
  if a.lacks .quotes then { o with minify := true } else o

/-- The run that converts the file, with these options. Source that is not empty needs quotation
marks. -/
def convertAndConclude (a : Arguments) (o : Options) (files : FileTree) (session : Session) :
    Except Abort Run :=
  let (outcome, session) :=
    (convertFile Tools.session files a.file (some a.componentName) (a.working o)).run session
  let log := logText a.verbose session.log
  let unread (message : String) : Run :=
    let stderr := log ++ errorLine ("Failed to read SVG: " ++ message)
    { status := 1, stderr, files, session }
  match outcome with
  | .error (.read (.path .nullCharacter)) => .error (.path .nullCharacter a.file)
  | .error (.read e) => .ok (unread (e.message a.file))
  | .error (.crash c) => if isReported c then .ok (unread c.message) else .error (.crash c)
  | .ok r =>
    if a.lacks .quotes && r.source.any (!·.isEmpty) then .error (.unset .quotes)
    else conclude a o files r log session

/-- The run that arguments ask for. -/
def carryOut {ε : Type} (reader : DocumentReader ε) (a : Arguments) (files : FileTree)
    (session : Session) : Except Abort Run := do
  match ← a.options reader files with
  | .error e => return { status := e.status, stderr := errorLine e.message, files, session }
  | .ok o => convertAndConclude a o files session

/-! ## Command lines -/

/-- The exit status of a command line that is not carried out. -/
def ArgumentError.status : ArgumentError → Nat
  | .helpWanted => 0
  | _ => 2

/-- The line that a program prints about an argument error. -/
def ArgumentError.line (program : String) (e : ArgumentError) : String :=
  program ++ ": error: " ++ e.message

/-- What reads command lines and options files. Readers differ in the corners of what they accept; what a
run does with what they read is the same. -/
structure Readers (ε : Type) where
  arguments : List String → Except ArgumentError Arguments
  document : DocumentReader ε

/-- The readers of the program: options files are YAML. -/
def Readers.standard : Readers Yaml.DocumentError := ⟨readArguments, Yaml.reader⟩

/-- The run of a command line. -/
def command {ε : Type} (readers : Readers ε) (program : String) (arguments : List String)
    (files : FileTree) (session : Session) : Except Abort Run :=
  match readers.arguments arguments with
  | .error .helpWanted => .ok { status := 0, stdout := helpText program, files, session }
  | .error e => .ok { status := e.status, stderr := e.line program ++ "\n", files, session }
  | .ok a => carryOut readers.document a files session

end SvgComponent.Cli
