import TypeBench.Approach.Basic
import TypeBench.Log
import TypeBench.Report.Console

/-!
# What a command leaves

A command prints lines and lines of the log, and it writes files. It may end before its end, by a
failure, by an interrupt or with an exit code of its own.

## Main definitions

* `LogFormat`: how the log is printed; `LogFormat.accepts` says which lines can be.
* `Printed`, `Transcript`: what was printed, and all that a command has left so far.
* `Ending`, `CommandStep`: why a command ends, and a part of a command.
* `CommandStep.print`, `CommandStep.logAll`: printing a line, and printing lines of the log.
* `CommandStep.conclude`: the exit code of a command, with its last words.
-/

namespace TypeBench

/-- How the log is printed. -/
inductive LogFormat where
  | console
  | json
  deriving DecidableEq

/-- The format of a name. -/
def LogFormat.ofName? (name : Text) : Option LogFormat :=
  if name = Text.ofString "console" then some .console
  else if name = Text.ofString "json" then some .json
  else none

/-- Whether a line of the log can be printed at a moment. On a console it is a text, which may have
no bytes; a document has only ASCII in it. -/
def LogFormat.check (now : Timestamp) (line : LogLine) : LogFormat → Except Failure Unit
  | json => .ok ()
  | console =>
    match Utf8.encode (line.text now) with
    | .ok _ => .ok ()
    | .error run => .error (.unencodable run)

/-- Whether a line of the log can be printed at a moment. -/
def LogFormat.accepts (now : Timestamp) (line : LogLine) (format : LogFormat) : Bool :=
  (format.check now line).isOk

/-- What is printed: a text with its line end, or a line of the log. -/
inductive Printed where
  | text (t : Text)
  | log (line : LogLine)

/-- What a command has left so far. -/
structure Transcript where
  files : FileTree
  printed : List Printed
  logFormat : LogFormat

/-- Why a command ends. -/
inductive Ending where
  | halted (halt : Halt)
  | exit (code : Nat)

/-- A part of a command; what it left before an early end stays. -/
abbrev CommandStep := EStateM Ending Transcript

namespace Transcript

/-- The transcript of a command that has not begun. -/
def start (files : FileTree) : Transcript := ⟨files, [], .console⟩

/-- The transcript with more printed. -/
def add (t : Transcript) (more : List Printed) : Transcript :=
  { t with printed := t.printed ++ more }

/-- All the text printed, the log apart. -/
def text (t : Transcript) : Text :=
  t.printed.flatMap fun
    | .text text => text
    | .log _ => []

/-- The lines of the log. -/
def log (t : Transcript) : List LogLine :=
  t.printed.filterMap fun
    | .text _ => none
    | .log line => some line

/-- The transcript with a line printed; a line with a lone surrogate cannot be printed. -/
def print (hasStyles : Bool) (line : Text) (t : Transcript) : Except Failure Transcript :=
  let text := Console.printed hasStyles line
  match Utf8.encode text with
  | .ok _ => .ok (t.add [.text text])
  | .error run => .error (.unencodable run)

end Transcript

namespace CommandStep

/-- Ends a command by a failure. -/
def fail {α : Type} (failure : Failure) : CommandStep α := throw (.halted (.failed failure))

/-- The result of a part that may fail. -/
def orFail {α : Type} : Except Failure α → CommandStep α
  | .ok result => return result
  | .error failure => fail failure

/-- Prints a line. -/
def print (hasStyles : Bool) (line : Text) : CommandStep Unit := fun t =>
  match t.print hasStyles line with
  | .ok t => .ok () t
  | .error failure => fail failure t

/-- Prints lines. -/
def printAll (hasStyles : Bool) : List Text → CommandStep Unit
  | [] => return ()
  | line :: rest => do
    print hasStyles line
    printAll hasStyles rest

/-- How the log is printed. -/
def logFormat : CommandStep LogFormat := fun t => .ok t.logFormat t

/-- Prints a line of the log. -/
def log (now : Timestamp) (line : LogLine) : CommandStep Unit := fun t =>
  match t.logFormat.check now line with
  | .ok () => .ok () (t.add [.log line])
  | .error failure => fail failure t

/-- Prints lines of the log. -/
def logAll (now : Timestamp) : List LogLine → CommandStep Unit
  | [] => return ()
  | line :: rest => do
    log now line
    logAll now rest

/-- The files as they stand. -/
def files : CommandStep FileTree := fun t => .ok t.files t

/-- Changes the files. -/
def setFiles (files : FileTree) : CommandStep Unit := fun t => .ok () { t with files := files }

/-- Settles how the log is printed. -/
def setLogFormat (format : LogFormat) : CommandStep Unit := fun t =>
  .ok () { t with logFormat := format }

/-- The last words about a failure: an error of the bench explains itself. -/
def failureText : Failure → Text
  | .bench error => error.message
  | failure => "Unexpected error: " ++ failure.message ++ "\nPlease report this bug."

/-- The last words of a command, where there are any. -/
def lastWords? (interrupted : Text) : Ending → Option Text
  | .halted .interrupted => some interrupted
  | .halted (.failed failure) => some (failureText failure)
  | .exit _ => none

/-- The exit code of an ending. -/
def exitCode : Ending → Nat
  | .halted _ => 1
  | .exit code => code

/-- The exit code of a command and its transcript with the last words, if they can be printed. -/
def conclude (hasStyles : Bool) (interrupted : Text) :
    EStateM.Result Ending Transcript Unit → Nat × Transcript
  | .ok () t => (0, t)
  | .error ending t =>
    match lastWords? interrupted ending with
    | none => (exitCode ending, t)
    | some words => (exitCode ending, (t.print hasStyles words).toOption.getD t)

end CommandStep

end TypeBench
