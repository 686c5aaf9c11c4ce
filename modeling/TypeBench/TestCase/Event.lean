import TypeBench.Notice

/-!
# Events of loading test cases

## Main definitions

* `CaseEvent`: what happens while test cases are loaded.
* `CaseEvent.notice`, `CaseEvent.kinds`: events as notices, and the kinds of these.
-/

namespace TypeBench

/-- What happens while test cases are loaded. -/
inductive CaseEvent where
  | loadingStarted (source : Text) (path : Option Text)
  | caseLoaded (id : Text) (truths : Nat)
  | loadingCompleted (source : Text) (total : Nat)
  | loadingFailed (source reason : Text)
  deriving DecidableEq

namespace CaseEvent

/-- An event as a notice. -/
def notice : CaseEvent → Notice
  | loadingStarted source path =>
    ⟨"loading_started", [("source", .text source), ("path", (path.map Value.text).getD .null)]⟩
  | caseLoaded id truths =>
    ⟨"test_case_loaded", [("test_case_id", .text id), ("ground_truth_count", .int truths)]⟩
  | loadingCompleted source total =>
    ⟨"loading_completed", [("source", .text source), ("total_test_cases", .int total)]⟩
  | loadingFailed source reason =>
    ⟨"loading_failed", [("source", .text source), ("reason", .text reason)]⟩

/-- The kinds of notices of loading test cases. -/
def kinds : List NoticeKind :=
  [⟨"loading_started", ["source", "path"]⟩,
    ⟨"test_case_loaded", ["test_case_id", "ground_truth_count"]⟩,
    ⟨"loading_completed", ["source", "total_test_cases"]⟩,
    ⟨"loading_failed", ["source", "reason"]⟩]

theorem check_notice (listener : String) (event : CaseEvent) :
    (Listener.mk listener kinds).check event.notice = .ok () := by
  cases event <;> rfl

end CaseEvent

end TypeBench
