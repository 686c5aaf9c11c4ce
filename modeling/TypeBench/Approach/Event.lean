import TypeBench.Notice

/-!
# Events of approaches

## Main definitions

* `ApproachEvent`: what happens while an approach is set up and predicts.
* `ApproachEvent.notice`, `ApproachEvent.kinds`: events as notices, and the kinds of these.
-/

namespace TypeBench

/-- What happens while an approach is set up and predicts. -/
inductive ApproachEvent where
  | configured (approach : Text) (options : Value)
  | syntaxErrors (approach file : Text) (count : Nat)
  | traversalFailed (approach file reason : Text) (collected : Nat)
  | predictionsCompleted (approach file : Text) (candidates emitted : Nat)

namespace ApproachEvent

/-- An event as a notice. -/
def notice : ApproachEvent → Notice
  | configured approach options =>
    ⟨"approach_initialized", [("approach", .text approach), ("options", options)]⟩
  | syntaxErrors approach file count =>
    ⟨"syntax_errors_detected",
      [("approach", .text approach), ("file_path", .text file), ("error_count", .int count)]⟩
  | traversalFailed approach file reason collected =>
    ⟨"traversal_failed",
      [("approach", .text approach), ("file_path", .text file), ("reason", .text reason),
        ("collected", .int collected)]⟩
  | predictionsCompleted approach file candidates emitted =>
    ⟨"predictions_completed",
      [("approach", .text approach), ("file_path", .text file), ("candidates", .int candidates),
        ("emitted", .int emitted)]⟩

/-- The kinds of notices of approaches. -/
def kinds : List NoticeKind :=
  [⟨"approach_initialized", ["approach", "options"]⟩,
    ⟨"syntax_errors_detected", ["approach", "file_path", "error_count"]⟩,
    ⟨"traversal_failed", ["approach", "file_path", "reason", "collected"]⟩,
    ⟨"predictions_completed", ["approach", "file_path", "candidates", "emitted"]⟩]

theorem check_notice (listener : String) (event : ApproachEvent) :
    (Listener.mk listener kinds).check event.notice = .ok () := by
  cases event <;> rfl

end ApproachEvent

end TypeBench
