import TypeBench.Approach.Event
import TypeBench.Config.Event
import TypeBench.Evaluation.Event
import TypeBench.Json.Basic
import TypeBench.TestCase.Event
import TypeBench.Text.Styled
import TypeBench.Value.Display

/-!
# Log lines

Every event has a line in the log: a level, a name and fields. Scores and times are rounded to
four places there. A line can also be made of a notice that a listener takes.

## Main definitions

* `LogLevel`, `LogLine`: a level, and a line of the log.
* `EvaluationEvent.logLine`, `ApproachEvent.logLine`, `ConfigEvent.logLine`, `CaseEvent.logLine`:
  the lines of events.
* `LogLine.ofNotice`: the line of a notice.
* `LogLine.json`, `LogLine.text`: a line as a document, and on a console.

## Main results

* `LogLine.ofNotice_evaluation`, `LogLine.ofNotice_approach`, `LogLine.ofNotice_config`,
  `LogLine.ofNotice_case`: the line of an event is the line of its notice.
-/

namespace TypeBench

/-- How much a line of the log matters. -/
inductive LogLevel where
  | debug
  | info
  | warning
  | error
  deriving DecidableEq

/-- The name of a level. -/
def LogLevel.name : LogLevel → String
  | debug => "debug"
  | info => "info"
  | warning => "warning"
  | error => "error"

/-- A line of the log. -/
structure LogLine where
  level : LogLevel
  name : String
  fields : List (String × Value)

/-- A number as it is logged. -/
def Binary64.logged (x : Binary64) : Value := .float (x.roundPlaces 4)

/-- The line of an event of an evaluation. -/
def EvaluationEvent.logLine (event : EvaluationEvent Binary64) : LogLine :=
  match event with
  | registered approach true =>
    ⟨.warning, "evaluation.approach_replaced", [("approach", .text approach)]⟩
  | registered approach false =>
    ⟨.debug, "evaluation.approach_registered", [("approach", .text approach)]⟩
  | evaluationStarted .. => ⟨.info, "evaluation.started", event.notice.fields⟩
  | caseStarted .. => ⟨.info, "evaluation.test_case_started", event.notice.fields⟩
  | caseCompleted .. => ⟨.debug, "evaluation.test_case_completed", event.notice.fields⟩
  | evaluationCompleted approach accuracy correct total time =>
    ⟨.info, "evaluation.completed",
      [("approach", .text approach), ("accuracy", accuracy.logged),
        ("correct_predictions", .int correct), ("total_predictions", .int total),
        ("execution_time_seconds", time.logged)]⟩
  | evaluationFailed .. => ⟨.error, "evaluation.failed", event.notice.fields⟩
  | disposeFailed .. => ⟨.warning, "evaluation.dispose_failed", event.notice.fields⟩

/-- The line of an event of an approach. -/
def ApproachEvent.logLine (event : ApproachEvent) : LogLine :=
  match event with
  | configured .. => ⟨.debug, "approach.initialized", event.notice.fields⟩
  | syntaxErrors .. => ⟨.warning, "approach.syntax_errors_detected", event.notice.fields⟩
  | traversalFailed .. => ⟨.error, "approach.traversal_failed", event.notice.fields⟩
  | predictionsCompleted .. => ⟨.debug, "approach.predictions_completed", event.notice.fields⟩

/-- What the log says about an approach that draws at random without a seed. -/
def unseededMessage : Text := "Random approach without a seed produces non-reproducible results"

/-- The line of an event of loading a configuration. -/
def ConfigEvent.logLine (event : ConfigEvent) : LogLine :=
  match event with
  | unseeded approach =>
    ⟨.warning, "config.unseeded_approach_warning",
      [("approach", .text approach), ("message", .text unseededMessage)]⟩
  | loaded .. => ⟨.info, "config.loaded", event.notice.fields⟩

/-- The line of an event of loading test cases. -/
def CaseEvent.logLine (event : CaseEvent) : LogLine :=
  match event with
  | loadingStarted .. => ⟨.info, "test_cases.loading_started", event.notice.fields⟩
  | caseLoaded .. => ⟨.debug, "test_cases.test_case_loaded", event.notice.fields⟩
  | loadingCompleted .. => ⟨.info, "test_cases.loading_completed", event.notice.fields⟩
  | loadingFailed .. => ⟨.error, "test_cases.loading_failed", event.notice.fields⟩

/-! ### Lines of notices -/

/-- A value of a notice as it is logged where a number is rounded; a boolean counts as one. -/
def Value.roundedForLog : Value → Except NoticeFault Value
  | .float x => .ok x.logged
  | .int i => .ok (.int i)
  | .bool b => .ok (.int (if b then 1 else 0))
  | value => .error (.notRounded value)

namespace LogLine

/-- The levels and names of the lines that have the fields of their notices. -/
def plain : List (String × LogLevel × String) :=
  [("evaluation_started", .info, "evaluation.started"),
    ("test_case_started", .info, "evaluation.test_case_started"),
    ("test_case_completed", .debug, "evaluation.test_case_completed"),
    ("evaluation_failed", .error, "evaluation.failed"),
    ("dispose_failed", .warning, "evaluation.dispose_failed"),
    ("approach_initialized", .debug, "approach.initialized"),
    ("syntax_errors_detected", .warning, "approach.syntax_errors_detected"),
    ("traversal_failed", .error, "approach.traversal_failed"),
    ("predictions_completed", .debug, "approach.predictions_completed"),
    ("config_loaded", .info, "config.loaded"),
    ("loading_started", .info, "test_cases.loading_started"),
    ("test_case_loaded", .debug, "test_cases.test_case_loaded"),
    ("loading_completed", .info, "test_cases.loading_completed"),
    ("loading_failed", .error, "test_cases.loading_failed")]

/-- The line of a completed evaluation, whose accuracy and time are rounded. -/
def completion (notice : Notice) : Except NoticeFault LogLine := do
  let accuracy ← (notice.field "accuracy").roundedForLog
  let time ← (notice.field "execution_time_seconds").roundedForLog
  return ⟨.info, "evaluation.completed",
    [("approach", notice.field "approach"), ("accuracy", accuracy),
      ("correct_predictions", notice.field "correct_predictions"),
      ("total_predictions", notice.field "total_predictions"),
      ("execution_time_seconds", time)]⟩

/-- The listener that logs evaluations. -/
def evaluationListener : Listener := ⟨"StructlogEvaluationObserver", EvaluationEvent.kinds⟩

/-- The listener that logs what approaches tell. -/
def approachListener : Listener := ⟨"StructlogApproachObserver", ApproachEvent.kinds⟩

/-- The listener that logs the loading of configurations. -/
def configListener : Listener := ⟨"StructlogConfigObserver", ConfigEvent.kinds⟩

/-- The listener that logs the loading of test cases. -/
def caseListener : Listener := ⟨"StructlogTestCaseObserver", CaseEvent.kinds⟩

/-- The line that a listener makes of a notice. -/
def ofNotice (listener : Listener) (notice : Notice) : Except NoticeFault LogLine := do
  listener.check notice
  match notice.name with
  | "approach_registered" =>
    let fields := [("approach", notice.field "approach")]
    if notice.isOn "replaced" then return ⟨.warning, "evaluation.approach_replaced", fields⟩
    else return ⟨.debug, "evaluation.approach_registered", fields⟩
  | "evaluation_completed" => completion notice
  | "config_unseeded_approach_warning" =>
    return ⟨.warning, "config.unseeded_approach_warning",
      [("approach", notice.field "approach"), ("message", .text unseededMessage)]⟩
  | name =>
    match plain.lookup name with
    | some (level, event) => return ⟨level, event, notice.fields⟩
    | none => .error (.unknownKind listener.name name)

theorem ofNotice_evaluation (event : EvaluationEvent Binary64) :
    ofNotice evaluationListener event.notice = .ok event.logLine := by
  cases event with
  | registered approach replaced => cases replaced <;> rfl
  | _ => rfl

theorem ofNotice_approach (event : ApproachEvent) :
    ofNotice approachListener event.notice = .ok event.logLine := by
  cases event <;> rfl

theorem ofNotice_config (event : ConfigEvent) :
    ofNotice configListener event.notice = .ok event.logLine := by
  cases event <;> rfl

theorem ofNotice_case (event : CaseEvent) :
    ofNotice caseListener event.notice = .ok event.logLine := by
  cases event <;> rfl

end LogLine

/-! ### Lines as documents -/

mutual

/-- A value as a document; a value that no document can hold is written out. -/
def Value.logged : Value → Json
  | .null => .null
  | .bool b => .bool b
  | .int i => .int i
  | .float x => .float x
  | .text t => .text t
  | .list items => .array (loggedItems items)
  | .tuple items => .array (loggedItems items)
  | .map entries => .object (loggedEntries entries)
  | value => .text value.written

/-- Items as documents. -/
def Value.loggedItems : List Value → List Json
  | [] => []
  | item :: rest => logged item :: loggedItems rest

/-- Entries as members; a key that is no text is shown. -/
def Value.loggedEntries : List (Value × Value) → List (Text × Json)
  | [] => []
  | (key, value) :: rest => (key.shown, logged value) :: loggedEntries rest

end

/-- A line of the log as a document: its fields, its name and its level. -/
def LogLine.json (line : LogLine) : Json :=
  .ofMembers (line.fields.map (fun (name, value) => (name, value.logged)) ++
    [("event", .text line.name), ("level", .text line.level.name)])

/-! ### Lines on a console -/

/-- The style of a level on a console. -/
def LogLevel.style : LogLevel → Style
  | debug | info => .green
  | warning => .yellow
  | error => .red

/-- Whether a code point sets the fields of a line on a console apart. -/
def LogLine.isDelimiter (c : CodePoint) : Bool :=
  c = ' ' || c = '\t' || c = '\n' || c = '\r' || c = '=' || c = '"' || c = '\''

/-- A value on a console: a text without delimiters needs no quotes. -/
def Value.onConsole : Value → Text
  | .text t => if t.any LogLine.isDelimiter then t.quoted else t
  | value => value.written

/-- A field of a line on a console. -/
def LogLine.fieldText (name : String) (value : Value) : Text :=
  " " ++ Text.styled [.cyan] name ++ "=" ++ Text.styled [.magenta] value.onConsole

/-- A line of the log on a console: the moment, the level, the name, and the fields in rising
order. -/
def LogLine.text (now : Timestamp) (line : LogLine) : Text :=
  let fields := line.fields.mergeSort fun a b => Text.le (Text.ofString a.1) (Text.ofString b.1)
  Text.styled [.dim] now.stamp ++
    " [" ++ Text.styled [line.level.style, .bold] (Text.padRight 9 line.level.name) ++
    "] " ++ Text.styled [.bold] (Text.padRight 30 line.name) ++
    fields.flatMap fun (name, value) => fieldText name value

end TypeBench
