import TypeBench.Approach.Event
import TypeBench.Config.Basic
import TypeBench.Failure
import TypeBench.Prediction
import TypeBench.Tree.SourceUnit

/-!
# Approaches

An approach is set up with options, predicts the types in source units, and is disposed of. Each
of these may fail, changes the approach and emits events. What an approach needs of a parser is
a source unit for a source.

## Main definitions

* `Halt`: how a call ends early, by a failure or by an interrupt.
* `Reply`: the outcome of a call, the approach after it and the events on the way.
* `Approach`: the calls that an approach answers.
* `SourceParser`: a parser of source units.
-/

namespace TypeBench

/-- How a call ends early. An interrupt comes from outside and is not an error. -/
inductive Halt where
  | failed (failure : Failure)
  | interrupted
  deriving DecidableEq

/-- The outcome of a call, the approach after it, and the events on the way. -/
structure Reply (A α : Type) where
  outcome : Except Halt α
  approach : A
  events : List ApproachEvent

/-- The calls that an approach answers. -/
class Approach (A : Type) where
  name : A → Text
  configure : Options → A → Reply A Unit
  predict : (source file : Text) → A → Reply A (List TypePrediction)
  dispose : A → Reply A Unit

/-- A parser of source units; it may not be ready for use. -/
structure SourceParser where
  ready : Except Failure Unit
  parse : Text → Except Failure SourceUnit

end TypeBench
