import TypeBench.Evaluation.Bench

/-!
# The course of an evaluation

An evaluation sets the approach up, goes through test cases until one breaks off, and disposes of
the approach. What may end it early is a failure or an interrupt of the approach, or of the clock.
The relations below say what the approach and the clock answer on the way, without the session that
is carried along; calls, events and the outcome are then read off.

## Main definitions

* `LogEntry.calls`: the calls in a record.
* `CompletedCase`, `BrokenCase`, `CasesRun`: how test cases end, and the run over a list of them.
* `Course`, `CourseRun`: what setting up, predicting and scoring come to.
* `Course.calls`, `Course.events`, `Course.closing`, `Course.ending`: what is seen of a course.

## Main results

* `CourseRun.begun_prefix`: test cases are begun in their order.
* `Session.predict_run`: one test case takes one step of the run.
* `Session.runCases_run`, `Session.scored_run`: the test cases, and the course as a whole.
* `Session.evaluate_run`, `Bench.evaluate_run`: the calls, the events and the outcome of an
  evaluation. -/

namespace TypeBench

/-! ### Records -/

namespace LogEntry

variable {R : Type}

/-- The call of an entry, if it is one. -/
def call? : LogEntry R → Option (Nat × Call)
  | .call number c => some (number, c)
  | _ => none

/-- The calls in a record, each with the number of its approach. -/
def calls (log : List (LogEntry R)) : List (Nat × Call) := log.filterMap call?

@[simp] theorem calls_append (log more : List (LogEntry R)) :
    calls (log ++ more) = calls log ++ calls more :=
  List.filterMap_append

@[simp] theorem told_append (log more : List (LogEntry R)) :
    told (log ++ more) = told log ++ told more :=
  List.filterMap_append

@[simp] theorem calls_cons_event (e : EvaluationEvent R) (log : List (LogEntry R)) :
    calls (.event e :: log) = calls log := rfl

@[simp] theorem told_cons_event (e : EvaluationEvent R) (log : List (LogEntry R)) :
    told (.event e :: log) = e :: told log := rfl

@[simp] theorem calls_map_event (events : List (EvaluationEvent R)) :
    calls (events.map .event) = [] := by
  simp [calls, call?]

@[simp] theorem told_map_event (events : List (EvaluationEvent R)) :
    told (events.map .event) = events := by
  simp [told, List.filterMap_map, Function.comp_def, evaluationEvent?]

/-- The entries that a call leaves. -/
def ofCall (number : Nat) (c : Call) (events : List ApproachEvent) : List (LogEntry R) :=
  .call number c :: events.map .approachEvent

@[simp] theorem calls_ofCall (number : Nat) (c : Call) (events : List ApproachEvent) :
    calls (R := R) (ofCall number c events) = [(number, c)] := by
  simp [ofCall, calls, call?]

@[simp] theorem told_ofCall (number : Nat) (c : Call) (events : List ApproachEvent) :
    told (R := R) (ofCall number c events) = [] := by
  simp [ofCall, told, evaluationEvent?]

end LogEntry

/-! ### Runs over test cases -/

/-- A test case with its predictions and the time that they took. -/
structure CompletedCase (R : Type) where
  case : TestCase
  predictions : List TypePrediction
  time : R

/-- A test case that was begun and not completed, and why; the approach may not have been called for
it. -/
structure BrokenCase where
  case : TestCase
  isCalled : Bool
  halt : Halt

section Run

variable {R A : Type} [Quantity R] [Approach A]

/-- A test case is completed: the clock is read, the approach predicts, the clock is read again, and
the time between the readings can be taken. -/
inductive CompletesCase (a : A) (clock : Clock R) : CompletedCase R → A → Clock R → Prop
  | intro {case : TestCase} {predictions : List TypePrediction} {started stopped : Mixed R}
      {time : R} {clock₁ clock₂ : Clock R}
      (hstart : clock.read = (.ok started, clock₁))
      (hpredict : (Approach.predict case.source case.id a).outcome = .ok predictions)
      (hstop : clock₁.read = (.ok stopped, clock₂))
      (htime : Clock.elapsed started stopped = .ok time) :
      CompletesCase a clock ⟨case, predictions, time⟩
        (Approach.predict case.source case.id a).approach clock₂

/-- A test case breaks off at the first of these steps that does not succeed. -/
inductive BreaksCase (a : A) (clock : Clock R) : BrokenCase → A → Clock R → Prop
  | unstarted {case : TestCase} {halt : Halt} {clock₁ : Clock R}
      (hstart : clock.read = (.error halt, clock₁)) :
      BreaksCase a clock ⟨case, false, halt⟩ a clock₁
  | unpredicted {case : TestCase} {halt : Halt} {started : Mixed R} {clock₁ : Clock R}
      (hstart : clock.read = (.ok started, clock₁))
      (hpredict : (Approach.predict case.source case.id a).outcome = .error halt) :
      BreaksCase a clock ⟨case, true, halt⟩
        (Approach.predict case.source case.id a).approach clock₁
  | unstopped {case : TestCase} {halt : Halt} {predictions : List TypePrediction}
      {started : Mixed R} {clock₁ clock₂ : Clock R}
      (hstart : clock.read = (.ok started, clock₁))
      (hpredict : (Approach.predict case.source case.id a).outcome = .ok predictions)
      (hstop : clock₁.read = (.error halt, clock₂)) :
      BreaksCase a clock ⟨case, true, halt⟩
        (Approach.predict case.source case.id a).approach clock₂
  | untimed {case : TestCase} {fault : RangeFault} {predictions : List TypePrediction}
      {started stopped : Mixed R} {clock₁ clock₂ : Clock R}
      (hstart : clock.read = (.ok started, clock₁))
      (hpredict : (Approach.predict case.source case.id a).outcome = .ok predictions)
      (hstop : clock₁.read = (.ok stopped, clock₂))
      (htime : Clock.elapsed started stopped = .error fault) :
      BreaksCase a clock ⟨case, true, .failed (.range fault)⟩
        (Approach.predict case.source case.id a).approach clock₂

/-- Test cases are completed in order, until one breaks off. -/
inductive CasesRun : A → Clock R → List TestCase →
    List (CompletedCase R) → Option BrokenCase → A → Clock R → Prop
  | nil (a : A) (clock : Clock R) : CasesRun a clock [] [] none a clock
  | broken {a a' : A} {clock clock' : Clock R} {last : BrokenCase}
      (h : BreaksCase a clock last a' clock') (rest : List TestCase) :
      CasesRun a clock (last.case :: rest) [] (some last) a' clock'
  | completed {a a₁ a' : A} {clock clock₁ clock' : Clock R} {first : CompletedCase R}
      {rest : List TestCase} {done : List (CompletedCase R)} {last? : Option BrokenCase}
      (h : CompletesCase a clock first a₁ clock₁)
      (hrest : CasesRun a₁ clock₁ rest done last? a' clock') :
      CasesRun a clock (first.case :: rest) (first :: done) last? a' clock'

end Run

namespace CasesRun

variable {R : Type}

/-- The calls of the approach: one for each test case, but for a last one that broke off before. -/
def calls (done : List (CompletedCase R)) (last? : Option BrokenCase) : List Call :=
  (done.map (·.case) ++ (last?.toList.filter (·.isCalled)).map (·.case)).map fun case =>
    .predict case.source case.id

/-- The events of the test cases: each is begun, and all but one that broke off are completed. -/
def events (name : Text) (done : List (CompletedCase R)) (last? : Option BrokenCase) :
    List (EvaluationEvent R) :=
  (done.flatMap fun d =>
    [.caseStarted name d.case.id d.case.name,
      .caseCompleted name d.case.id d.predictions.length]) ++
    last?.toList.map fun b => .caseStarted name b.case.id b.case.name

/-- What the test cases come to: the tally of them all, unless one broke off. -/
def outcome (t : CaseTally R) : Option BrokenCase → Except Halt (CaseTally R)
  | none => .ok t
  | some last => .error last.halt

theorem calls_cons (first : CompletedCase R) (done : List (CompletedCase R))
    (last? : Option BrokenCase) :
    calls (first :: done) last? =
      .predict first.case.source first.case.id :: calls done last? := rfl

theorem events_cons (name : Text) (first : CompletedCase R) (done : List (CompletedCase R))
    (last? : Option BrokenCase) :
    events name (first :: done) last? =
      .caseStarted name first.case.id first.case.name ::
        .caseCompleted name first.case.id first.predictions.length :: events name done last? := rfl

end CasesRun

/-! ### Courses -/

/-- What setting up, predicting and scoring come to: the completed test cases, one that broke off,
and the result or what ended it early. -/
structure Course (R : Type) where
  completed : List (CompletedCase R)
  broken? : Option BrokenCase
  outcome : Except Halt (EvaluationResult R)

/-- The tally after more test cases. -/
def CaseTally.addAll {R : Type} [Quantity R] (t : CaseTally R) (done : List (CompletedCase R)) :
    CaseTally R :=
  done.foldl (fun t c => t.add c.case c.predictions c.time) t

/-- The score of a tally. -/
def CaseTally.score {R : Type} [Quantity R] (t : CaseTally R) (policy : ScoringPolicy)
    (name : Text) : Except Halt (EvaluationResult R) :=
  (t.matching.result policy name t.predictions t.truths t.time).mapError fun report =>
    .failed (.report report)

/-- The course of an evaluation up to the disposal of the approach. -/
inductive CourseRun {R A : Type} [Quantity R] [Approach A] (policy : ScoringPolicy) (name : Text)
    (cases : List TestCase) (options : Options) (a : A) (clock : Clock R) :
    Course R → A → Clock R → Prop
  | unconfigured {halt : Halt} (hconfigure : (Approach.configure options a).outcome = .error halt) :
      CourseRun policy name cases options a clock ⟨[], none, .error halt⟩
        (Approach.configure options a).approach clock
  | broken {done : List (CompletedCase R)} {last : BrokenCase} {a' : A} {clock' : Clock R}
      (hconfigure : (Approach.configure options a).outcome = .ok ())
      (hcases : CasesRun (Approach.configure options a).approach clock cases done (some last)
        a' clock') :
      CourseRun policy name cases options a clock ⟨done, some last, .error last.halt⟩ a' clock'
  | scored {done : List (CompletedCase R)} {a' : A} {clock' : Clock R}
      (hconfigure : (Approach.configure options a).outcome = .ok ())
      (hcases : CasesRun (Approach.configure options a).approach clock cases done none a' clock') :
      CourseRun policy name cases options a clock
        ⟨done, none, (CaseTally.empty.addAll done).score policy name⟩ a' clock'

namespace Course

variable {R : Type}

/-- The test cases that were begun, in order. -/
def begun (c : Course R) : List TestCase :=
  c.completed.map (·.case) ++ c.broken?.toList.map (·.case)

/-- The calls of the approach before it is disposed of. -/
def calls (options : Options) (c : Course R) : List Call :=
  .configure options :: CasesRun.calls c.completed c.broken?

/-- The events of the test cases that were begun. -/
def events (name : Text) (c : Course R) : List (EvaluationEvent R) :=
  CasesRun.events name c.completed c.broken?

/-- Whether the approach is disposed of: not after an interrupt. -/
def disposes (c : Course R) : Bool :=
  match c.outcome with
  | .error .interrupted => false
  | _ => true

/-- The event after the disposal of the approach: a result is announced if all went well, and a
second failure is reported. -/
def closing (name : Text) (c : Course R) (disposal : Except Halt Unit) :
    List (EvaluationEvent R) :=
  match c.outcome, disposal with
  | .ok result, .ok () =>
    [.evaluationCompleted name result.accuracy result.correct result.total result.time]
  | .error (.failed _), .error (.failed second) => [.disposeFailed name second.message]
  | _, _ => []

/-- The outcome of the evaluation: the first failure stands, and a failure of the disposal counts
when there is no other one. An interrupt stands above both. -/
def ending (name : Text) (c : Course R) (disposal : Except Halt Unit) :
    Except Halt (EvaluationResult R) :=
  match c.outcome, disposal with
  | .ok result, .ok () => .ok result
  | .ok _, .error (.failed failure) => .error (.failed (.bench (.undisposed name failure.message)))
  | .error (.failed failure), .ok () => .error (.failed failure)
  | .error (.failed failure), .error (.failed _) => .error (.failed failure)
  | .error .interrupted, _ => .error .interrupted
  | _, .error .interrupted => .error .interrupted

/-- The entries that an evaluation adds after its course. -/
def disposalEntries {A : Type} [Approach A] (number : Nat) (name : Text) (c : Course R) (a : A) :
    List (LogEntry R) :=
  (if c.disposes then LogEntry.ofCall number .dispose (Approach.dispose a).events else []) ++
    (c.closing name (Approach.dispose a).outcome).map .event

theorem calls_disposalEntries {A : Type} [Approach A] (number : Nat) (name : Text) (c : Course R)
    (a : A) : LogEntry.calls (c.disposalEntries number name a) =
      if c.disposes then [(number, Call.dispose)] else [] := by
  rw [disposalEntries, LogEntry.calls_append, LogEntry.calls_map_event, List.append_nil]
  split
  · exact LogEntry.calls_ofCall ..
  · rfl

theorem told_disposalEntries {A : Type} [Approach A] (number : Nat) (name : Text) (c : Course R)
    (a : A) : LogEntry.told (c.disposalEntries number name a) =
      c.closing name (Approach.dispose a).outcome := by
  rw [disposalEntries, LogEntry.told_append, LogEntry.told_map_event]
  split
  · rw [LogEntry.told_ofCall, List.nil_append]
  · rfl

end Course

/-- Test cases are begun in their order. -/
theorem CasesRun.begun_prefix {R A : Type} [Quantity R] [Approach A] {a a' : A}
    {clock clock' : Clock R} {cases : List TestCase} {done : List (CompletedCase R)}
    {last? : Option BrokenCase} (h : CasesRun a clock cases done last? a' clock') :
    done.map (·.case) ++ last?.toList.map (·.case) <+: cases := by
  induction h with
  | nil => exact List.prefix_rfl
  | broken _ rest => exact ⟨rest, rfl⟩
  | completed _ _ ih => exact (List.prefix_cons_inj _).2 ih

theorem CourseRun.begun_prefix {R A : Type} [Quantity R] [Approach A] {policy : ScoringPolicy}
    {name : Text} {cases : List TestCase} {options : Options} {a a' : A} {clock clock' : Clock R}
    {course : Course R} (h : CourseRun policy name cases options a clock course a' clock') :
    course.begun <+: cases := by
  cases h with
  | unconfigured => exact List.nil_prefix
  | broken _ hcases => exact hcases.begun_prefix
  | scored _ hcases => exact hcases.begun_prefix

/-! ### Sessions -/

namespace Session

variable {R A α β : Type}

theorem bind_of_ok {x : Action R A α} {s s' : Session R A} {a : α} (h : x s = .ok a s')
    (f : α → Action R A β) : (x >>= f) s = f a s' := by
  change EStateM.bind x f s = f a s'
  rw [EStateM.bind, h]

theorem bind_of_error {x : Action R A α} {s s' : Session R A} {halt : Halt}
    (h : x s = .error halt s') (f : α → Action R A β) : (x >>= f) s = .error halt s' := by
  change EStateM.bind x f s = .error halt s'
  rw [EStateM.bind, h]

/-- The session with the approach and the clock further on, and with more entries. -/
def advance (s : Session R A) (a : A) (clock : Clock R) (added : List (LogEntry R)) :
    Session R A where
  registration := { s.registration with approach := a }
  clock := clock
  observer := s.observer
  log := s.log ++ added

@[simp] theorem number_advance (s : Session R A) (a : A) (clock : Clock R)
    (added : List (LogEntry R)) :
    (s.advance a clock added).registration.number = s.registration.number := rfl

@[simp] theorem advance_nil (s : Session R A) :
    s.advance s.registration.approach s.clock [] = s := by
  simp [advance]

@[simp] theorem advance_advance (s : Session R A) (a b : A) (clock later : Clock R)
    (added more : List (LogEntry R)) :
    (s.advance a clock added).advance b later more = s.advance b later (added ++ more) := by
  simp [advance]

theorem record_eq (s : Session R A) (e : EvaluationEvent R) :
    s.record e = s.advance s.registration.approach s.clock [.event e] := rfl

theorem afterCall_eq (s : Session R A) (c : Call) (reply : Reply A α) :
    s.afterCall c reply =
      s.advance reply.approach s.clock (LogEntry.ofCall s.registration.number c reply.events) := rfl

theorem readClock_of_ok {s : Session R A} {time : Mixed R} {clock : Clock R}
    (h : s.clock.read = (.ok time, clock)) :
    readClock s = .ok time (s.advance s.registration.approach clock []) := by
  rw [readClock, h, advance, List.append_nil]

theorem readClock_of_error {s : Session R A} {halt : Halt} {clock : Clock R}
    (h : s.clock.read = (.error halt, clock)) :
    readClock s = .error halt (s.advance s.registration.approach clock []) := by
  rw [readClock, h, advance, List.append_nil]

theorem call_of_ok {c : Call} {answer : A → Reply A α} {s : Session R A} {result : α}
    (h : (answer s.registration.approach).outcome = .ok result) :
    call c answer s = .ok result (s.afterCall c (answer s.registration.approach)) := by
  simp only [call, h]

theorem call_of_error {c : Call} {answer : A → Reply A α} {s : Session R A} {halt : Halt}
    (h : (answer s.registration.approach).outcome = .error halt) :
    call c answer s = .error halt (s.afterCall c (answer s.registration.approach)) := by
  simp only [call, h]

/-- The result of a computation that comes to an outcome in a session. -/
def resultOf (outcome : Except Halt α) (s : Session R A) : EStateM.Result Halt (Session R A) α :=
  match outcome with
  | .ok a => .ok a s
  | .error halt => .error halt s

theorem tell_eq {s : Session R A} (h : s.observer.NeverFails) (e : EvaluationEvent R) :
    tell e s = .ok () (s.advance s.registration.approach s.clock [.event e]) :=
  tell_of_neverFails h e

theorem tell_advance {s : Session R A} (h : s.observer.NeverFails) (e : EvaluationEvent R) (a : A)
    (clock : Clock R) (added : List (LogEntry R)) :
    tell e (s.advance a clock added) = .ok () (s.advance a clock (added ++ [.event e])) := by
  rw [tell_of_neverFails (s := s.advance a clock added) h, record_eq, advance_advance]
  rfl

variable [Quantity R] [Approach A]

/-- One test case takes one step of the run, calls the approach if the clock can be read, and tells
nothing. -/
theorem predict_run (case : TestCase) (s : Session R A) :
    (∃ done a clock added, CompletesCase s.registration.approach s.clock done a clock ∧
      done.case = case ∧
      predict case s = .ok (done.predictions, done.time) (s.advance a clock added) ∧
      LogEntry.calls added = [(s.registration.number, .predict case.source case.id)] ∧
      LogEntry.told added = []) ∨
    ∃ last a clock added, BreaksCase s.registration.approach s.clock last a clock ∧
      last.case = case ∧
      predict case s = .error last.halt (s.advance a clock added) ∧
      LogEntry.calls added = (if last.isCalled then
        [(s.registration.number, .predict case.source case.id)] else []) ∧
      LogEntry.told added = [] := by
  rw [predict]
  rcases hstart : s.clock.read with ⟨started | started, clock₁⟩
  · refine .inr ⟨⟨case, false, started⟩, _, clock₁, [], .unstarted hstart, rfl, ?_, rfl, rfl⟩
    exact bind_of_error (readClock_of_error hstart) _
  rw [bind_of_ok (readClock_of_ok hstart)]
  let s₁ := s.advance s.registration.approach clock₁ []
  cases hpredict : (Approach.predict case.source case.id s.registration.approach).outcome with
  | error halt =>
    have hcall := call_of_error (s := s₁) (c := .predict case.source case.id) hpredict
    rw [bind_of_error hcall, afterCall_eq, advance_advance]
    exact .inr ⟨⟨case, true, halt⟩, _, clock₁, _, .unpredicted hstart hpredict, rfl, rfl,
      LogEntry.calls_ofCall .., LogEntry.told_ofCall ..⟩
  | ok predictions =>
    have hcall := call_of_ok (s := s₁) (c := .predict case.source case.id) hpredict
    rw [bind_of_ok hcall, afterCall_eq, advance_advance]
    rcases hstop : clock₁.read with ⟨stopped | stopped, clock₂⟩
    · rw [bind_of_error (readClock_of_error hstop), advance_advance]
      exact .inr ⟨⟨case, true, stopped⟩, _, clock₂, _, .unstopped hstart hpredict hstop, rfl, rfl,
        by simp [s₁], by simp [s₁]⟩
    · rw [bind_of_ok (readClock_of_ok hstop), advance_advance]
      cases htime : Clock.elapsed started stopped with
      | error fault =>
        exact .inr ⟨⟨case, true, .failed (.range fault)⟩, _, clock₂, _,
          .untimed hstart hpredict hstop htime, rfl, rfl, by simp [s₁], by simp [s₁]⟩
      | ok time =>
        exact .inl ⟨⟨case, predictions, time⟩, _, clock₂, _, .intro hstart hpredict hstop htime,
          rfl, rfl, by simp [s₁], by simp [s₁]⟩

/-- Going through test cases is a run over them, and adds to the tally what the run completes. -/
theorem runCases_run {s : Session R A} (hobserver : s.observer.NeverFails) (name : Text)
    (cases : List TestCase) (t : CaseTally R) :
    ∃ (done : List (CompletedCase R)) (last? : Option BrokenCase) (a : A) (clock : Clock R)
      (added : List (LogEntry R)),
      CasesRun s.registration.approach s.clock cases done last? a clock ∧
      runCases name cases t s =
        resultOf (CasesRun.outcome (t.addAll done) last?) (s.advance a clock added) ∧
      LogEntry.calls added = (CasesRun.calls done last?).map (s.registration.number, ·) ∧
      LogEntry.told added = CasesRun.events name done last? := by
  induction cases generalizing s t with
  | nil =>
    refine ⟨[], none, _, _, [], .nil _ _, ?_, rfl, rfl⟩
    rw [advance_nil]
    rfl
  | cons case rest ih =>
    rw [runCases, bind_of_ok (tell_eq hobserver _)]
    rcases predict_run case (s.advance s.registration.approach s.clock
      [.event (.caseStarted name case.id case.name)]) with
      ⟨first, a, clock, added, hrun, rfl, hpredict, hcalls, htold⟩ |
      ⟨last, a, clock, added, hrun, rfl, hpredict, hcalls, htold⟩
    · rw [bind_of_ok hpredict, advance_advance]
      dsimp only
      rw [bind_of_ok (tell_advance hobserver _ _ _ _)]
      obtain ⟨done, last?, a', clock', more, hrest, heq, hcalls', htold'⟩ :=
        ih (s := s.advance a clock _) hobserver (t.add first.case first.predictions first.time)
      rw [heq, advance_advance]
      refine ⟨first :: done, last?, a', clock', _, .completed hrun hrest, rfl, ?_, ?_⟩
      · simp [hcalls, hcalls', CasesRun.calls_cons]
      · simp [htold, htold', CasesRun.events_cons]
    · rw [bind_of_error hpredict, advance_advance]
      refine ⟨[], some last, a, clock, _, .broken hrun rest, rfl, ?_, ?_⟩
      · cases hcalled : last.isCalled <;> simp [hcalls, hcalled, CasesRun.calls]
      · simp [htold, CasesRun.events]

/-- Setting up, predicting and scoring take a course. -/
theorem scored_run {s : Session R A} (hobserver : s.observer.NeverFails) (policy : ScoringPolicy)
    (name : Text) (cases : List TestCase) (options : Options) :
    ∃ (course : Course R) (a : A) (clock : Clock R) (added : List (LogEntry R)),
      CourseRun policy name cases options s.registration.approach s.clock course a clock ∧
      scored policy name cases options s = resultOf course.outcome (s.advance a clock added) ∧
      LogEntry.calls added = (course.calls options).map (s.registration.number, ·) ∧
      LogEntry.told added = course.events name := by
  rw [scored, configure]
  cases hconfigure : (Approach.configure options s.registration.approach).outcome with
  | error halt =>
    have hcall := call_of_error (s := s) (c := .configure options) hconfigure
    rw [bind_of_error hcall, afterCall_eq]
    exact ⟨⟨[], none, .error halt⟩, _, _, _, .unconfigured hconfigure, rfl,
      LogEntry.calls_ofCall .., LogEntry.told_ofCall ..⟩
  | ok _ =>
    have hcall := call_of_ok (s := s) (c := .configure options) hconfigure
    rw [bind_of_ok hcall, afterCall_eq]
    obtain ⟨done, last?, a, clock, added, hrun, heq, hcalls, htold⟩ :=
      runCases_run (s := s.advance _ _ _) hobserver name cases CaseTally.empty
    rw [advance_advance] at heq
    cases last? with
    | some last =>
      rw [bind_of_error heq]
      refine ⟨⟨done, some last, .error last.halt⟩, a, clock, _, .broken hconfigure hrun, rfl, ?_,
        ?_⟩
      · simp [hcalls, Course.calls]
      · simp [htold, Course.events]
    | none =>
      rw [bind_of_ok heq]
      let entries : List (LogEntry R) := LogEntry.ofCall s.registration.number
        (.configure options) (Approach.configure options s.registration.approach).events
      refine ⟨⟨done, none, _⟩, a, clock, entries ++ added, .scored hconfigure hrun, ?_, ?_, ?_⟩
      · rw [CaseTally.score]
        generalize CaseTally.empty.addAll done = t
        cases t.matching.result policy name t.predictions t.truths t.time <;> rfl
      · simp [entries, hcalls, Course.calls]
      · simp [entries, htold, Course.events]

omit [Quantity R] in
theorem dispose_advance (s : Session R A) (a : A) (clock : Clock R) (added : List (LogEntry R)) :
    dispose (s.advance a clock added) =
      resultOf (Approach.dispose a).outcome (s.advance (Approach.dispose a).approach clock
        (added ++ LogEntry.ofCall s.registration.number .dispose (Approach.dispose a).events)) := by
  cases hdispose : (Approach.dispose a).outcome with
  | error halt =>
    rw [dispose, call_of_error (s := s.advance a clock added) hdispose, afterCall_eq,
      advance_advance]
    rfl
  | ok _ =>
    rw [dispose, call_of_ok (s := s.advance a clock added) hdispose, afterCall_eq, advance_advance]
    rfl

/-- After its course the approach is disposed of unless an interrupt arrived, and the outcome of the
evaluation is settled. -/
theorem scoredAndDisposed_run {s : Session R A} (hobserver : s.observer.NeverFails)
    (policy : ScoringPolicy) (name : Text) (cases : List TestCase) (options : Options) :
    ∃ (course : Course R) (a a' : A) (clock : Clock R) (added : List (LogEntry R)),
      CourseRun policy name cases options s.registration.approach s.clock course a clock ∧
      scoredAndDisposed policy name cases options s =
        resultOf (course.ending name (Approach.dispose a).outcome) (s.advance a' clock
          (added ++ course.disposalEntries s.registration.number name a)) ∧
      LogEntry.calls added = (course.calls options).map (s.registration.number, ·) ∧
      LogEntry.told added = course.events name := by
  obtain ⟨course, a, clock, added, hrun, heq, hcalls, htold⟩ :=
    scored_run hobserver policy name cases options
  refine ⟨course, a, if course.disposes then (Approach.dispose a).approach else a, clock, added,
    hrun, ?_, hcalls, htold⟩
  obtain ⟨done, last?, outcome⟩ := course
  rw [scoredAndDisposed, heq]
  rcases outcome with (failure | _) | result
  · simp only [resultOf, disposeAfter, dispose_advance, Course.disposalEntries, Course.disposes]
    rcases (Approach.dispose a).outcome with (second | _) | _
    · simp [tell_advance hobserver, Course.ending, Course.closing]
    · simp [Course.ending, Course.closing]
    · simp [Course.ending, Course.closing]
  · simp [resultOf, Course.disposalEntries, Course.ending, Course.disposes, Course.closing]
  · simp only [resultOf, complete, dispose_advance, Course.disposalEntries, Course.disposes]
    rcases (Approach.dispose a).outcome with (second | _) | _
    · simp [Course.ending, Course.closing]
    · simp [Course.ending, Course.closing]
    · simp only [announce]
      rw [bind_of_ok (tell_advance hobserver _ _ _ _), List.append_assoc]
      rfl

/-- An evaluation tells of its start, takes a course, and disposes of the approach. -/
theorem evaluate_run {s : Session R A} (hobserver : s.observer.NeverFails)
    (policy : ScoringPolicy) (name : Text) (cases : List TestCase) (options : Options) :
    ∃ (course : Course R) (a a' : A) (clock : Clock R) (added : List (LogEntry R)),
      CourseRun policy name cases options s.registration.approach s.clock course a clock ∧
      evaluate policy name cases options s =
        resultOf (course.ending name (Approach.dispose a).outcome) (s.advance a' clock added) ∧
      LogEntry.calls added =
        (course.calls options ++ if course.disposes then [Call.dispose] else []).map
          (s.registration.number, ·) ∧
      LogEntry.told added =
        .evaluationStarted name cases.length ::
          (course.events name ++ course.closing name (Approach.dispose a).outcome) := by
  rw [evaluate, bind_of_ok (tell_eq hobserver _)]
  obtain ⟨course, a, a', clock, added, hrun, heq, hcalls, htold⟩ :=
    scoredAndDisposed_run (s := s.advance _ _ [.event (.evaluationStarted name cases.length)])
      hobserver policy name cases options
  rw [heq, advance_advance]
  refine ⟨course, a, a', clock, _, hrun, rfl, ?_, ?_⟩
  · simp only [List.singleton_append, LogEntry.calls_cons_event, LogEntry.calls_append, hcalls,
      Course.calls_disposalEntries, number_advance]
    cases course.disposes <;> simp
  · simp [htold, Course.told_disposalEntries]

end Session

/-! ### Benches -/

namespace Bench

variable {R A : Type}

theorem turnOf_resultOf {α : Type} (bench : Bench A) (name : Text) (outcome : Except Halt α)
    (s : Session R A) :
    bench.turnOf name (Session.resultOf outcome s) =
      ⟨outcome, bench.keep name s.registration, ⟨s.clock, s.observer, s.log⟩⟩ := by
  cases outcome <;> rfl

variable [Quantity R] [Approach A] {bench : Bench A} {world : World R} {name : Text}
  {registration : Registration A}

/-- An evaluation of a registered approach is one of its session, and keeps the approach as it is
then. -/
theorem evaluate_run (hfind : bench.find? name = some registration)
    (hobserver : world.observer.NeverFails) (cases : List TestCase) (options : Options) :
    ∃ (course : Course R) (a a' : A) (clock : Clock R) (added : List (LogEntry R)),
      CourseRun bench.policy name cases options registration.approach world.clock course a clock ∧
      bench.evaluate world name cases options =
        ⟨course.ending name (Approach.dispose a).outcome,
          bench.keep name { registration with approach := a' },
          ⟨clock, world.observer, world.log ++ added⟩⟩ ∧
      LogEntry.calls added =
        (course.calls options ++ if course.disposes then [Call.dispose] else []).map
          (registration.number, ·) ∧
      LogEntry.told added =
        .evaluationStarted name cases.length ::
          (course.events name ++ course.closing name (Approach.dispose a).outcome) := by
  obtain ⟨course, a, a', clock, added, hrun, heq, hcalls, htold⟩ :=
    Session.evaluate_run (s := ⟨registration, world.clock, world.observer, world.log⟩) hobserver
      bench.policy name cases options
  refine ⟨course, a, a', clock, added, hrun, ?_, hcalls, htold⟩
  rw [evaluate, hfind]
  dsimp only
  rw [heq, turnOf_resultOf]
  rfl

end Bench

end TypeBench
