import TypeBench.Evaluation.Event
import TypeBench.Failure

/-!
# Observers of evaluations

An observer is told of every event. It may fail at one; what it does then depends on nothing but the
events that it was told of before.

## Main definitions

* `Observer`: how an observer takes an event after others.
* `Observer.NeverFails`: the observers that fail at no event.
* `Observer.silent`: the observer that takes no notice of events.
-/

namespace TypeBench

/-- An observer: whether it fails at an event, after the events that it was told of before. -/
abbrev Observer (R : Type) :=
  (told : List (EvaluationEvent R)) → (event : EvaluationEvent R) → Except Failure Unit

namespace Observer

variable {R : Type}

/-- An observer that fails at no event. -/
def NeverFails (observer : Observer R) : Prop :=
  ∀ told event, observer told event = .ok ()

/-- The observer that takes no notice of events. -/
def silent : Observer R := fun _ _ => .ok ()

theorem silent_neverFails : (silent : Observer R).NeverFails := fun _ _ => rfl

end Observer

end TypeBench
