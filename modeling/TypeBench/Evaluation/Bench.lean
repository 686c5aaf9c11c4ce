import TypeBench.Evaluation.Session
import TypeBench.Score.Comparison

/-!
# The bench

The bench holds approaches under their names and evaluates them one at a time, in the order in
which their names were first registered. A failing approach does not keep the others from being
evaluated.

## Main definitions

* `Bench`: the scoring policy and the registered approaches.
* `Bench.register`: registering an approach in the place of an earlier one of its name.
* `World`: the clock, the observer and the record that evaluations share.
* `Turn`: the outcome of an evaluation, and the bench and the world after it.
* `Bench.evaluate`, `Bench.evaluateAll`: the evaluation of one approach, and of all.
-/

namespace TypeBench

/-- The scoring policy and the registered approaches; `count` approaches were registered so far. -/
structure Bench (A : Type) where
  policy : ScoringPolicy
  count : Nat
  registry : Named (Registration A)

/-- The clock, the observer and the record that evaluations share. -/
structure World (R : Type) where
  clock : Clock R
  observer : Observer R
  log : List (LogEntry R)

/-- The outcome of an evaluation, and the bench and the world after it. -/
structure Turn (R A α : Type) where
  outcome : Except Halt α
  bench : Bench A
  world : World R

/-- The world with an event recorded. -/
def World.record {R : Type} (w : World R) (e : EvaluationEvent R) : World R :=
  { w with log := w.log ++ [.event e] }

/-- How the observer takes an event. -/
def World.tell {R : Type} (w : World R) (e : EvaluationEvent R) : Except Failure Unit :=
  w.observer (LogEntry.told w.log) e

namespace Bench

variable {R A : Type}

/-- A bench without approaches. -/
def empty (policy : ScoringPolicy) : Bench A := ⟨policy, 0, []⟩

/-- The names of the registered approaches. -/
def names (bench : Bench A) : List Text := Named.names bench.registry

/-- The approach of a name. -/
def find? (bench : Bench A) (name : Text) : Option (Registration A) :=
  bench.registry.lookup name

/-- The bench with an approach kept under a name. -/
def keep (bench : Bench A) (name : Text) (registration : Registration A) : Bench A :=
  { bench with registry := Named.put name registration bench.registry }

/-- The bench with one more approach registered. -/
def add [Approach A] (bench : Bench A) (approach : A) : Bench A :=
  { bench.keep (Approach.name approach) ⟨bench.count, approach⟩ with count := bench.count + 1 }

/-- The event of registering an approach. -/
def registered [Approach A] (bench : Bench A) (approach : A) : EvaluationEvent R :=
  .registered (Approach.name approach) (bench.find? (Approach.name approach)).isSome

/-- Registers an approach. It stays registered if the observer fails. -/
def register [Approach A] (bench : Bench A) (world : World R) (approach : A) : Turn R A Unit where
  outcome := (world.tell (bench.registered approach)).mapError .failed
  bench := bench.add approach
  world := world.record (bench.registered approach)

/-- The result of a session as a turn of the bench. -/
def turnOf {α : Type} (bench : Bench A) (name : Text) :
    EStateM.Result Halt (Session R A) α → Turn R A α
  | .ok result s =>
    ⟨.ok result, bench.keep name s.registration, ⟨s.clock, s.observer, s.log⟩⟩
  | .error halt s =>
    ⟨.error halt, bench.keep name s.registration, ⟨s.clock, s.observer, s.log⟩⟩

variable [Quantity R] [Approach A]

/-- Evaluates the approach of a name. -/
def evaluate (bench : Bench A) (world : World R) (name : Text) (cases : List TestCase)
    (options : Options) : Turn R A (EvaluationResult R) :=
  match bench.find? name with
  | none => ⟨.error (.failed (.bench (.unregistered name))), bench, world⟩
  | some registration =>
    bench.turnOf name
      (Session.evaluate bench.policy name cases options
        ⟨registration, world.clock, world.observer, world.log⟩)

/-- Results under the names of their approaches. -/
abbrev Results (R : Type) := Named (EvaluationResult R)

/-- Evaluates the approaches of names, each with its options. The observer is told of failures; an
interrupt ends the evaluation, and so does an observer that fails at a failure. -/
def evaluateNames (cases : List TestCase) (optionsOf : Text → Options) :
    List Text → Bench A → World R → Turn R A (Results R)
  | [], bench, world => ⟨.ok [], bench, world⟩
  | name :: rest, bench, world =>
    match bench.evaluate world name cases (optionsOf name) with
    | ⟨.ok result, bench, world⟩ =>
      let turn := evaluateNames cases optionsOf rest bench world
      { turn with outcome := turn.outcome.map ((name, result) :: ·) }
    | ⟨.error (.failed failure), bench, world⟩ =>
      let event := .evaluationFailed name failure.message
      match world.tell event with
      | .ok () => evaluateNames cases optionsOf rest bench (world.record event)
      | .error second => ⟨.error (.failed second), bench, world.record event⟩
    | ⟨.error .interrupted, bench, world⟩ => ⟨.error .interrupted, bench, world⟩

/-- Evaluates all approaches, in the order of their names. -/
def evaluateAll (bench : Bench A) (world : World R) (cases : List TestCase)
    (optionsOf : Text → Options) : Turn R A (Results R) :=
  evaluateNames cases optionsOf bench.names bench world

end Bench

end TypeBench
