import TypeBench.Notice

/-!
# Events of evaluations

## Main definitions

* `EvaluationEvent`: what happens while approaches are registered and evaluated.
* `EvaluationEvent.notice`, `EvaluationEvent.kinds`: events as notices, and the kinds of these.
* `EvaluationEvent.forwarder`: the listener that passes notices on.
-/

namespace TypeBench

/-- What happens while approaches are registered and evaluated. Scores and times are quantities of
any type. -/
inductive EvaluationEvent (R : Type) where
  | registered (approach : Text) (replaced : Bool)
  | evaluationStarted (approach : Text) (cases : Nat)
  | caseStarted (approach id name : Text)
  | caseCompleted (approach id : Text) (predictions : Nat)
  | evaluationCompleted (approach : Text) (accuracy : R) (correct total : Nat) (time : R)
  | evaluationFailed (approach reason : Text)
  | disposeFailed (approach reason : Text)
  deriving DecidableEq

namespace EvaluationEvent

/-- An event as a notice. -/
def notice : EvaluationEvent Binary64 → Notice
  | registered approach replaced =>
    ⟨"approach_registered", [("approach", .text approach), ("replaced", .bool replaced)]⟩
  | evaluationStarted approach cases =>
    ⟨"evaluation_started", [("approach", .text approach), ("total_test_cases", .int cases)]⟩
  | caseStarted approach id name =>
    ⟨"test_case_started",
      [("approach", .text approach), ("test_case_id", .text id), ("test_case_name", .text name)]⟩
  | caseCompleted approach id predictions =>
    ⟨"test_case_completed",
      [("approach", .text approach), ("test_case_id", .text id),
        ("total_predictions", .int predictions)]⟩
  | evaluationCompleted approach accuracy correct total time =>
    ⟨"evaluation_completed",
      [("approach", .text approach), ("accuracy", .float accuracy),
        ("correct_predictions", .int correct), ("total_predictions", .int total),
        ("execution_time_seconds", .float time)]⟩
  | evaluationFailed approach reason =>
    ⟨"evaluation_failed", [("approach", .text approach), ("reason", .text reason)]⟩
  | disposeFailed approach reason =>
    ⟨"dispose_failed", [("approach", .text approach), ("reason", .text reason)]⟩

/-- The kinds of notices of evaluations. -/
def kinds : List NoticeKind :=
  [⟨"approach_registered", ["approach", "replaced"]⟩,
    ⟨"evaluation_started", ["approach", "total_test_cases"]⟩,
    ⟨"test_case_started", ["approach", "test_case_id", "test_case_name"]⟩,
    ⟨"test_case_completed", ["approach", "test_case_id", "total_predictions"]⟩,
    ⟨"evaluation_completed",
      ["approach", "accuracy", "correct_predictions", "total_predictions",
        "execution_time_seconds"]⟩,
    ⟨"evaluation_failed", ["approach", "reason"]⟩,
    ⟨"dispose_failed", ["approach", "reason"]⟩]

/-- The listener that passes notices on to others. -/
def forwarder : Listener := ⟨"CompositeEvaluationObserver", kinds⟩

theorem check_notice (listener : String) (event : EvaluationEvent Binary64) :
    (Listener.mk listener kinds).check event.notice = .ok () := by
  cases event <;> rfl

end EvaluationEvent

end TypeBench
