import TypeBench.Evaluation.Clock
import TypeBench.Evaluation.Observer
import TypeBench.Score.Metrics

/-!
# Evaluation of one approach

An approach is set up, predicts for each test case, and is disposed of. Only the time of predicting
is measured. When a part of this fails, the approach is still disposed of, and the failure stands;
when an interrupt arrives, it ends everything at once. An observer is told of every event, and a
failure of the observer counts as one of the part that it was told of.

## Main definitions

* `Call`, `LogEntry`: the calls of an approach, and what is recorded of an evaluation.
* `Registration`, `Session`: an approach with its number, and the state of its evaluation.
* `Action`: a computation on a session that may end early.
* `Session.tell`: recording an event and telling the observer of it.
* `CaseTally`: what is collected over the test cases.
* `Session.scored`: setting up, predicting and scoring.
* `Session.evaluate`: the whole evaluation.
-/

namespace TypeBench

/-- A call of an approach. -/
inductive Call where
  | configure (options : Options)
  | predict (source file : Text)
  | dispose

/-- What is recorded of an evaluation: events, and calls of the approach with a number. -/
inductive LogEntry (R : Type) where
  | event (e : EvaluationEvent R)
  | approachEvent (e : ApproachEvent)
  | call (number : Nat) (c : Call)

/-- The event of an entry, if it is one of an evaluation. -/
def LogEntry.evaluationEvent? {R : Type} : LogEntry R → Option (EvaluationEvent R)
  | .event e => some e
  | _ => none

/-- The events of evaluations in a record. -/
def LogEntry.told {R : Type} (log : List (LogEntry R)) : List (EvaluationEvent R) :=
  log.filterMap LogEntry.evaluationEvent?

/-- An approach with the number of its registration. -/
structure Registration (A : Type) where
  number : Nat
  approach : A

/-- The state of the evaluation of one approach. -/
structure Session (R A : Type) where
  registration : Registration A
  clock : Clock R
  observer : Observer R
  log : List (LogEntry R)

/-- A computation on a session that may end early; the session is kept then. -/
abbrev Action (R A : Type) := EStateM Halt (Session R A)

/-- What is collected over test cases. -/
structure CaseTally (R : Type) where
  predictions : List TypePrediction
  truths : List GroundTruth
  matching : MatchSet
  time : R

namespace CaseTally

variable {R : Type} [Quantity R]

/-- Nothing collected. -/
def empty : CaseTally R := ⟨[], [], .empty, Quantity.zero⟩

/-- The tally after one more test case, which is matched on its own. -/
def add (t : CaseTally R) (case : TestCase) (predictions : List TypePrediction) (time : R) :
    CaseTally R where
  predictions := t.predictions ++ predictions
  truths := t.truths ++ case.truths
  matching := t.matching.merge (MatchSet.ofPredictions predictions case.truths)
  time := t.time + time

end CaseTally

namespace Session

variable {R A : Type}

/-- The session with an event recorded. -/
def record (s : Session R A) (e : EvaluationEvent R) : Session R A :=
  { s with log := s.log ++ [.event e] }

/-- Records an event and tells the observer of it. -/
def tell (e : EvaluationEvent R) : Action R A Unit := fun s =>
  match s.observer (LogEntry.told s.log) e with
  | .ok () => .ok () (s.record e)
  | .error failure => .error (.failed failure) (s.record e)

theorem tell_of_neverFails {s : Session R A} (h : s.observer.NeverFails)
    (e : EvaluationEvent R) : tell e s = .ok () (s.record e) := by
  rw [tell, h]

/-- Reads the clock. -/
def readClock : Action R A (Mixed R) := fun s =>
  match s.clock.read with
  | (.ok time, clock) => .ok time { s with clock := clock }
  | (.error halt, clock) => .error halt { s with clock := clock }

/-- The session after a call and its reply. -/
def afterCall {α : Type} (s : Session R A) (c : Call) (reply : Reply A α) : Session R A where
  registration := { s.registration with approach := reply.approach }
  clock := s.clock
  observer := s.observer
  log := s.log ++ .call s.registration.number c :: reply.events.map .approachEvent

/-- Calls the approach. -/
def call {α : Type} (c : Call) (answer : A → Reply A α) : Action R A α := fun s =>
  let reply := answer s.registration.approach
  match reply.outcome with
  | .ok result => .ok result (s.afterCall c reply)
  | .error halt => .error halt (s.afterCall c reply)

variable [Quantity R] [Approach A]

/-- Sets the approach up. -/
def configure (options : Options) : Action R A Unit :=
  call (.configure options) (Approach.configure options)

/-- Disposes of the approach. -/
def dispose : Action R A Unit :=
  call .dispose Approach.dispose

/-- The predictions for a test case, and their time. -/
def predict (case : TestCase) : Action R A (List TypePrediction × R) := do
  let started ← readClock
  let predictions ← call (.predict case.source case.id) (Approach.predict case.source case.id)
  let stopped ← readClock
  match Clock.elapsed started stopped with
  | .ok time => return (predictions, time)
  | .error fault => throw (.failed (.range fault))

/-- Goes through test cases. -/
def runCases (name : Text) : List TestCase → CaseTally R → Action R A (CaseTally R)
  | [], t => return t
  | case :: rest, t => do
    tell (.caseStarted name case.id case.name)
    let (predictions, time) ← predict case
    tell (.caseCompleted name case.id predictions.length)
    runCases name rest (t.add case predictions time)

/-- Sets the approach up, goes through the test cases, and scores the predictions. -/
def scored (policy : ScoringPolicy) (name : Text) (cases : List TestCase) (options : Options) :
    Action R A (EvaluationResult R) := do
  configure options
  let t ← runCases name cases CaseTally.empty
  match t.matching.result policy name t.predictions t.truths t.time with
  | .ok result => return result
  | .error report => throw (.failed (.report report))

/-- Disposes of the approach after a failure, which stands; the observer is told of a failure to
do so. -/
def disposeAfter {α : Type} (name : Text) (failure : Failure) : Action R A α := fun s =>
  match dispose s with
  | .ok _ s => .error (.failed failure) s
  | .error (.failed second) s =>
    match tell (.disposeFailed name second.message) s with
    | .ok _ s => .error (.failed failure) s
    | .error halt s => .error halt s
  | .error .interrupted s => .error .interrupted s

/-- Tells the observer of a result. -/
def announce (name : Text) (result : EvaluationResult R) : Action R A (EvaluationResult R) := do
  tell (.evaluationCompleted name result.accuracy result.correct result.total result.time)
  return result

/-- Disposes of the approach after its test cases are scored. -/
def complete (name : Text) (result : EvaluationResult R) : Action R A (EvaluationResult R) :=
  fun s =>
    match dispose s with
    | .ok _ s => announce name result s
    | .error (.failed failure) s =>
      .error (.failed (.bench (.undisposed name failure.message))) s
    | .error .interrupted s => .error .interrupted s

/-- Runs the approach and disposes of it, whatever its outcome. -/
def scoredAndDisposed (policy : ScoringPolicy) (name : Text) (cases : List TestCase)
    (options : Options) : Action R A (EvaluationResult R) := fun s =>
  match scored policy name cases options s with
  | .ok result s => complete name result s
  | .error (.failed failure) s => disposeAfter name failure s
  | .error .interrupted s => .error .interrupted s

/-- Evaluates the approach under a name. The approach is not touched if the observer fails at the
start. -/
def evaluate (policy : ScoringPolicy) (name : Text) (cases : List TestCase) (options : Options) :
    Action R A (EvaluationResult R) := do
  tell (.evaluationStarted name cases.length)
  scoredAndDisposed policy name cases options

end Session

end TypeBench
