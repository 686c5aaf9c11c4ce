import TypeBench.FileTree
import TypeBench.Json.Reader
import TypeBench.Markup.Tag
import TypeBench.Number.Mixed
import TypeBench.Validation.Basic

/-!
# Failures

A part of the bench fails for one of a few causes. The bench has errors of its own, which it
expects and explains; all other failures come from what it builds on.

## Main definitions

* `BenchError`: the errors of the bench.
* `Failure`: all failures.
* `BenchError.message`, `Failure.message`: their texts.
-/

namespace TypeBench

/-- The errors that the bench itself detects. -/
inductive BenchError where
  | general (message : Text) (retriable : Bool)
  | unsupportedApproach (kind : Text)
  | invalidOption (approach option reason : Text)
  | unregistered (approach : Text)
  | undisposed (approach reason : Text)
  | unreadableConfig (path : Path) (reason : Text)
  | missingVariables (names : List Text)
  | invalidConfig (reason : Text)
  | violatedConfig (report : Report)
  | unloadableCases (reason : Text)
  deriving DecidableEq

/-- The reason for a configuration file that is not there. -/
def BenchError.fileNotFound : Text := "file not found"

/-- The text of an error of the bench. Missing variables are named in rising order. -/
def BenchError.message : BenchError → Text
  | general message _ => message
  | unsupportedApproach kind =>
    "Failed to create approach: unsupported approach type: " ++ kind.quoted
  | invalidOption approach option reason =>
    "Failed to configure approach '" ++ approach ++ "': option '" ++ option ++ "' " ++ reason
  | unregistered approach =>
    "Failed to evaluate approach: '" ++ approach ++ "' is not registered"
  | undisposed approach reason =>
    "Failed to dispose approach '" ++ approach ++ "': " ++ reason
  | unreadableConfig path reason =>
    "Failed to load config: " ++ reason ++ ": " ++ path.text
  | missingVariables names =>
    "Failed to load config: missing environment variables: " ++
      Text.join ", " (names.mergeSort Text.le)
  | invalidConfig reason => "Failed to validate config: " ++ reason
  | violatedConfig report => "Failed to validate config: " ++ report.message
  | unloadableCases reason => "Failed to load test cases: " ++ reason

/-- Whether the same call may succeed later. -/
def BenchError.isRetriable : BenchError → Bool
  | general _ retriable => retriable
  | _ => false

/-- Why a part of the bench fails. -/
inductive Failure where
  | bench (error : BenchError)
  | report (report : Report)
  | unencodable (run : Utf8.SurrogateRun)
  | undecodable (fault : Utf8.Fault)
  | file (path : Path) (fault : FileFault)
  | unreadable (error : Json.ReadError)
  | unknownVariable (name : Text)
  /-- A value, here in its written form, names no scoring policy. -/
  | unknownPolicy (written : Text)
  | range (fault : RangeFault)
  | markup (fault : Markup.Tag.Fault)
  /-- A part that the bench only calls failed with a message. -/
  | raised (message : Text)
  deriving DecidableEq

namespace Failure

/-- The text of a failure. -/
def message : Failure → Text
  | bench error => error.message
  | report found => found.message
  | unencodable run => run.message
  | undecodable fault => fault.message
  | file path fault => fault.message path
  | unreadable error => error.message
  | unknownVariable name => name.quoted
  | unknownPolicy written => written ++ " is not a valid ScoringPolicy"
  | range fault => fault.message
  | markup fault => fault.message
  | raised message => message

/-- Whether the bench itself detected the failure. -/
def isExpected : Failure → Bool
  | bench _ => true
  | _ => false

end Failure

end TypeBench
