import SvgComponent.Settings.Json
import SvgComponent.Source.Indent
import SvgComponent.Text.Utf8

/-!
# Sessions with tools

Tools are programs outside: each is called with arguments, a text and a time limit, and replies. A
session holds the replies that are still to come and records the calls made and the messages logged.

* `Call`, `Reply`, `Session.call`: one call of a program.
* `ToolError`: a failure, after which a conversion goes on without the tool, or a crash, which ends
  it.
* `LogEntry`, `Session.note`: messages on the way.
-/

namespace SvgComponent.Tool

/-- A call of a program. -/
structure Call where
  args : List String
  /-- The text on its standard input. -/
  input : String
  /-- The time it may take, in seconds. -/
  timeout : Float

/-- What comes of a call. -/
inductive Reply where
  /-- There is no such program. -/
  | missing
  /-- It did not end in time. -/
  | timedOut
  /-- It may not be run. -/
  | denied
  /-- It ended, and what it wrote is not UTF-8. -/
  | undecodable (fault : Text.Utf8.Fault)
  /-- It ended, with this exit status and output. -/
  | finished (status : Int) (stdout stderr : String)
  deriving DecidableEq, Repr

/-- What ends a conversion without a result. -/
inductive Crash where
  /-- A program may not be run. -/
  | permissionDenied
  /-- What a program wrote is not UTF-8. -/
  | undecodable (fault : Text.Utf8.Fault)
  /-- The program to be run has no name. -/
  | commandEmpty
  /-- A request to a program cannot be written. -/
  | unwritable (error : Settings.JsonError)
  /-- A number among a program's arguments has too many digits. -/
  | argumentTooLong
  /-- Source cannot be indented. -/
  | indentation (error : Source.IndentError)
  /-- Any other fault, with the name of its kind and its own message. -/
  | fault (kind message : String)
  deriving DecidableEq, Repr

/-- The wording of a crash. -/
def Crash.message : Crash → String
  | .permissionDenied => "[Errno 13] Permission denied"
  | .undecodable f => f.message
  | .commandEmpty => "tuple index out of range"
  | .unwritable error => error.message
  | .argumentTooLong => Number.tooManyDigits none
  | .indentation error => error.message
  | .fault _ message => message

/-- What a crash is reported as: a fault without a message goes by the name of its kind. -/
def Crash.report : Crash → String
  | .fault kind message => if message.isEmpty then kind else message
  | c => c.message

/-- Why a tool gives no result. -/
inductive ToolError where
  /-- The tool cannot be used; the conversion goes on without it. -/
  | failure (message : String)
  | crash (c : Crash)
  deriving DecidableEq, Repr

/-- How important a message is. -/
inductive Level where
  | debug
  | warning
  deriving DecidableEq, Repr

/-- The name of a level. -/
def Level.name : Level → String
  | .debug => "DEBUG"
  | .warning => "WARNING"

/-- The part of the program that logs a message. -/
inductive Origin where
  | conversion
  | optimizer
  | formatter
  deriving DecidableEq, Repr

/-- The name under which a part of the program logs. -/
def Origin.name : Origin → String
  | .conversion => "svg_jsx.convert"
  | .optimizer => "svg_jsx.optimizer"
  | .formatter => "svg_jsx.formatter"

/-- A logged message. -/
structure LogEntry where
  level : Level
  origin : Origin
  message : String
  deriving DecidableEq, Repr

/-- A logged message as a line. -/
def LogEntry.line (e : LogEntry) : String :=
  e.level.name ++ " " ++ e.origin.name ++ ": " ++ e.message ++ "\n"

/-- A session with tools. -/
structure Session where
  /-- Replies to come; when there are none left, programs are missing. -/
  replies : List Reply := []
  /-- The calls made, in order. -/
  calls : List Call := []
  /-- The messages logged, in order. -/
  log : List LogEntry := []

/-- Calls a program. -/
def Session.call (c : Call) : StateM Session Reply := fun s =>
  match s.replies with
  | [] => (.missing, { s with calls := s.calls ++ [c] })
  | r :: rs => (r, { s with replies := rs, calls := s.calls ++ [c] })

/-- Logs a message. -/
def Session.note (e : LogEntry) : StateM Session Unit := fun s =>
  ((), { s with log := s.log ++ [e] })

/-- The output of a program that has one. `what` names the tool, and `absent` is what comes of it if
there is no such program. -/
def outputOf (what : String) (absent : ToolError) (timeout : Float) :
    Reply → Except ToolError String
  | .missing => .error absent
  | .timedOut =>
    .error (.failure (what ++ " timed out after " ++ Number.briefText timeout ++ "s"))
  | .denied => .error (.crash .permissionDenied)
  | .undecodable f => .error (.crash (.undecodable f))
  | .finished status stdout stderr =>
    if status ≠ 0 then
      let reason := match Text.strip stderr.toList with
        | [] => "exit status " ++ toString status
        | text => String.ofList text
      .error (.failure (what ++ " failed: " ++ reason))
    else if Text.isBlankText stdout.toList then
      .error (.failure (what ++ " returned no output"))
    else .ok stdout

end SvgComponent.Tool
