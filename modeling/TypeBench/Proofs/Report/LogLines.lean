import TypeBench.Command.Transcript
import TypeBench.Proofs.Value.Shown

/-!
# Lines of the log

On a console a line of the log is a text, and it can be printed if no text in its fields has a lone
surrogate. As a document every line can be printed.

## Main definitions

* `LogLine.IsPlain`: a line without lone surrogates in its texts.

## Main results

* `LogLine.hasSurrogate_text`: such a line on a console.
* `LogFormat.accepts_of_isPlain`: such a line can be printed, whatever the format.
-/

namespace TypeBench

/-- What the values of fields make on a console has no lone surrogates. -/
theorem Value.hasSurrogate_onConsole {value : Value}
    (h : ∀ t, value = .text t → t.hasSurrogate = false) : value.onConsole.hasSurrogate = false := by
  cases value with
  | text t =>
    rw [onConsole]
    split
    · exact t.hasSurrogate_quoted
    · exact h t rfl
  | _ => exact hasSurrogate_written _

/-- A line without lone surrogates in its texts. -/
def LogLine.IsPlain (line : LogLine) : Prop :=
  ∀ field ∈ line.fields, ∀ t, field.2 = .text t → t.hasSurrogate = false

theorem LogLine.hasSurrogate_text {line : LogLine} (h : line.IsPlain) (now : Timestamp) :
    (line.text now).hasSurrogate = false := by
  simp only [text, Text.hasSurrogate_append, Text.hasSurrogate_styled, Text.hasSurrogate_ofString,
    Text.hasSurrogate_padRight, Timestamp.hasSurrogate_stamp, Bool.false_or]
  refine Text.hasSurrogate_flatMap fun field hfield => ?_
  have hvalue : field.2.onConsole.hasSurrogate = false :=
    Value.hasSurrogate_onConsole (h field (List.mem_mergeSort.1 hfield))
  simp [fieldText, hvalue]

namespace LogFormat

/-- A line without lone surrogates in its texts can be printed. -/
theorem check_of_isPlain {line : LogLine} (h : line.IsPlain) (now : Timestamp)
    (format : LogFormat) : format.check now line = .ok () := by
  cases format with
  | json => rfl
  | console => rw [check, Utf8.encode_eq_ok (line.hasSurrogate_text h now)]

theorem accepts_of_isPlain {line : LogLine} (h : line.IsPlain) (now : Timestamp)
    (format : LogFormat) : format.accepts now line = true := by
  rw [accepts, check_of_isPlain h]
  rfl

end LogFormat

/-! ### Events -/

theorem ConfigEvent.isPlain_unseeded {approach : Text} (h : approach.hasSurrogate = false) :
    (unseeded approach).logLine.IsPlain := by
  simp [LogLine.IsPlain, logLine, unseededMessage, h]

theorem ConfigEvent.isPlain_loaded {name version : Text} (hname : name.hasSurrogate = false)
    (hversion : version.hasSurrogate = false) : (loaded name version).logLine.IsPlain := by
  simp [LogLine.IsPlain, logLine, notice, hname, hversion]

theorem CaseSource.hasSurrogate_name (source : CaseSource) : source.name.hasSurrogate = false := by
  cases source <;> exact Text.hasSurrogate_ofString _

theorem CaseEvent.isPlain_loadingStarted {source : CaseSource} {path : Option Text}
    (h : ∀ t ∈ path, t.hasSurrogate = false) :
    (loadingStarted source.name path).logLine.IsPlain := by
  cases path with
  | none => simp [LogLine.IsPlain, logLine, notice, source.hasSurrogate_name]
  | some t => simp [LogLine.IsPlain, logLine, notice, source.hasSurrogate_name, h t rfl]

theorem CaseEvent.isPlain_caseLoaded {id : Text} (h : id.hasSurrogate = false) (truths : Nat) :
    (caseLoaded id truths).logLine.IsPlain := by
  simp [LogLine.IsPlain, logLine, notice, h]

theorem CaseEvent.isPlain_loadingCompleted (source : CaseSource) (total : Nat) :
    (loadingCompleted source.name total).logLine.IsPlain := by
  simp [LogLine.IsPlain, logLine, notice, source.hasSurrogate_name]

namespace EvaluationEvent

theorem isPlain_registered {approach : Text} (h : approach.hasSurrogate = false)
    (replaced : Bool) : (registered approach replaced).logLine.IsPlain := by
  cases replaced <;> simp [LogLine.IsPlain, logLine, h]

theorem isPlain_evaluationStarted {approach : Text} (h : approach.hasSurrogate = false)
    (total : Nat) : (evaluationStarted approach total).logLine.IsPlain := by
  simp [LogLine.IsPlain, logLine, notice, h]

theorem isPlain_evaluationFailed {approach reason : Text}
    (happroach : approach.hasSurrogate = false) (hreason : reason.hasSurrogate = false) :
    (evaluationFailed approach reason).logLine.IsPlain := by
  simp [LogLine.IsPlain, logLine, notice, happroach, hreason]

end EvaluationEvent

end TypeBench
