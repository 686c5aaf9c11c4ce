import TypeBench.Command.Transcript
import TypeBench.Evaluation.Observer
import TypeBench.Evaluation.Progress

/-!
# Watching evaluations

A command watches its evaluations in two ways: it logs every event, and it shows their progress
where the log is printed on a console. An event whose line cannot be printed is shown no progress
of.

## Main definitions

* `LogFormat.progress`: the progress that is shown after events.
* `LogFormat.watch`: the observer of the evaluations of a command.
* `LogFormat.watchEnd`: the end of the watch.

## Main results

* `LogFormat.watch_json_neverFails`: watching fails at no event where the log is no console text.
-/

namespace TypeBench.LogFormat

/-- The progress that is shown after events. -/
def progress (format : LogFormat) (now : Timestamp) (told : List (EvaluationEvent Binary64)) :
    Progress Nat :=
  (Progress.start (format = .json) false).observeAll
    (told.filter fun event => format.accepts now event.logLine)

/-- The failure to show rows. -/
def shown : Option Markup.Tag.Fault → Except Failure Unit
  | some fault => .error (.markup fault)
  | none => .ok ()

/-- The observer of the evaluations of a command. Rows are shown anew when an evaluation is
started. -/
def watch (format : LogFormat) (now : Timestamp) : Observer Binary64 := fun told event => do
  format.check now event.logLine
  match event with
  | .evaluationStarted approach total =>
    shown ((format.progress now told).begin (.text approach) total).2
  | _ => return ()

theorem watch_json_neverFails (now : Timestamp) : (json.watch now).NeverFails := by
  intro told event
  have hprogress : (json.progress now told).isDisabled :=
    Progress.isDisabled_observeAll (p := Progress.start true false) rfl _
  cases event with
  | evaluationStarted approach total =>
    change shown ((json.progress now told).begin (.text approach) total).2 = _
    rw [Progress.begin_of_isDisabled hprogress, shown]
  | _ => rfl

/-- The end of the watch: the progress is shown once more. -/
def watchEnd (format : LogFormat) (now : Timestamp) (told : List (EvaluationEvent Binary64)) :
    Except Failure Unit :=
  shown (format.progress now told).fault?

end TypeBench.LogFormat
