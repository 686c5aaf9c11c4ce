import TypeBench.Proofs.Evaluation.Answers
import TypeBench.Proofs.Evaluation.Repetition
import TypeBench.Proofs.Evaluation.Use

/-!
# What an evaluation records

An evaluation first tells of its start. All else that it tells is of its own test cases and of its
own end, and it tells of no more test cases than it is given. This holds for every observer and
wherever the evaluation breaks off. Each step of an evaluation records entries of this kind, and
those of one step after another are of this kind again. Together with the calls of its approach this
is all that it records. Evaluations of several approaches record such entries one after the other,
until one of them ends them all.

## Main definitions

* `EvaluationEvent.isWithin`, `EvaluationEvent.completes`: events between the start of an evaluation
  and its end, and those of test cases that are done.
* `LogEntry.IsWithin`: what an evaluation records after its start.
* `Session.Grown`, `Session.Grows`: sessions in which such entries were added, and computations that
  add them.
* `LogEntry.IsRun`, `LogEntry.IsCourse`: what is recorded of an evaluation, and what of one whose
  observer never fails.
* `Run`, `Bench.AreRuns`: an evaluation among others, and evaluations one after the other.
* `BenchCall`, `BenchCall.perform`: a call of a bench, and the bench and its world after it.

## Main results

* `Session.Grown.trans`, `Session.Grows.bind`: one step after another.
* `Session.grown_evaluate`: what an evaluation adds after its start.
* `Bench.exists_run`: the run that an evaluation on a bench records.
* `Bench.exists_runs`: the runs of evaluations one after the other.
-/

namespace TypeBench

namespace EvaluationEvent

variable {R : Type}

/-- Whether an event is one of those that are told of an evaluation under a name after its start. -/
def isWithin (name : Text) : EvaluationEvent R → Bool
  | caseStarted approach .. => approach = name
  | caseCompleted approach .. => approach = name
  | evaluationCompleted approach .. => approach = name
  | evaluationFailed approach _ => approach = name
  | disposeFailed approach _ => approach = name
  | _ => false

/-- Whether an event tells that a test case of a name is done. -/
def completes (name : Text) : EvaluationEvent R → Bool
  | caseCompleted approach .. => approach = name
  | _ => false

end EvaluationEvent

/-! ### Entries -/

namespace LogEntry

variable {R : Type}

/-- Entries that an evaluation may record after its start: it tells of events under its name, with
no more test cases that are done than there are. -/
structure IsWithin (name : Text) (cases : Nat) (entries : List (LogEntry R)) : Prop where
  told : ∀ e ∈ told entries, e.isWithin name = true
  done : (LogEntry.told entries).countP (·.completes name) ≤ cases

variable {name : Text} {cases more : Nat} {entries entries' : List (LogEntry R)}

theorem isWithin_nil : IsWithin (R := R) name 0 [] := ⟨List.forall_mem_nil _, Nat.le_refl 0⟩

theorem IsWithin.append (h : IsWithin name cases entries) (h' : IsWithin name more entries') :
    IsWithin name (cases + more) (entries ++ entries') where
  told := by
    rw [told_append]
    exact List.forall_mem_append.2 ⟨h.told, h'.told⟩
  done := by
    rw [told_append, List.countP_append]
    exact Nat.add_le_add h.done h'.done

theorem isWithin_event {e : EvaluationEvent R} (h : e.isWithin name = true) :
    IsWithin name (if e.completes name then 1 else 0) [.event e] where
  told := List.forall_mem_singleton.2 h
  done := by
    rw [told_cons_event]
    exact Nat.le_of_eq List.countP_singleton

theorem isWithin_ofCall (number : Nat) (c : Call) (events : List ApproachEvent) :
    IsWithin (R := R) name 0 (ofCall number c events) where
  told := by
    rw [told_ofCall]
    exact List.forall_mem_nil _
  done := by
    rw [told_ofCall]
    exact Nat.le_refl 0

end LogEntry

/-! ### Sessions -/

namespace Session

variable {R A α β : Type}

/-- A session after another one, between which an evaluation under a name has gone on. -/
def Grown (name : Text) (cases : Nat) (s s' : Session R A) : Prop :=
  ∃ added, s'.log = s.log ++ added ∧ LogEntry.IsWithin name cases added

variable {name : Text} {cases more : Nat} {s s' s'' : Session R A}

theorem Grown.refl (name : Text) (s : Session R A) : Grown name 0 s s :=
  ⟨[], (List.append_nil _).symm, LogEntry.isWithin_nil⟩

/-- What is added on one way and then on another is added on both. -/
theorem Grown.trans (h : Grown name cases s s') (h' : Grown name more s' s'') :
    Grown name (cases + more) s s'' := by
  obtain ⟨added, hlog, hwithin⟩ := h
  obtain ⟨added', hlog', hwithin'⟩ := h'
  refine ⟨added ++ added', ?_, hwithin.append hwithin'⟩
  rw [hlog', hlog, List.append_assoc]

theorem Grown.mono (h : Grown name cases s s') (hle : cases ≤ more) : Grown name more s s' := by
  obtain ⟨added, hlog, hwithin⟩ := h
  exact ⟨added, hlog, hwithin.told, Nat.le_trans hwithin.done hle⟩

/-- A computation in which an evaluation under a name goes on, however it ends. -/
def Grows (name : Text) (cases : Nat) (x : Action R A α) : Prop :=
  ∀ s, Grown name cases s (left (x s))

theorem Grows.pure (a : α) : Grows name 0 (pure a : Action R A α) := Grown.refl name

theorem Grows.throw (halt : Halt) : Grows name 0 (throw halt : Action R A α) := Grown.refl name

theorem Grows.bind {x : Action R A α} {f : α → Action R A β} (hx : Grows name cases x)
    (hf : ∀ a, Grows name more (f a)) : Grows name (cases + more) (x >>= f) := by
  intro s
  have hfirst := hx s
  cases hrun : x s with
  | ok a s' =>
    rw [hrun] at hfirst
    rw [bind_of_ok hrun]
    exact hfirst.trans (hf a s')
  | error halt s' =>
    rw [hrun] at hfirst
    rw [bind_of_error hrun]
    exact hfirst.mono (Nat.le_add_right _ _)

theorem grows_tell {e : EvaluationEvent R} (h : e.isWithin name = true) :
    Grows (A := A) name (if e.completes name then 1 else 0) (tell e) := by
  intro s
  have hleft : left (tell e s) = s.record e := by
    rw [tell]
    split <;> rfl
  rw [hleft]
  exact ⟨[.event e], rfl, LogEntry.isWithin_event h⟩

theorem grows_readClock : Grows (A := A) (R := R) name 0 readClock := by
  intro s
  rw [readClock]
  split <;> exact ⟨[], (List.append_nil _).symm, LogEntry.isWithin_nil⟩

theorem grows_call (name : Text) (c : Call) (answer : A → Reply A α) :
    Grows (R := R) name 0 (call c answer) := by
  intro s
  have hleft : left (call c answer s) = s.afterCall c (answer s.registration.approach) := by
    cases houtcome : (answer s.registration.approach).outcome with
    | ok result => rw [call_of_ok houtcome, left]
    | error halt => rw [call_of_error houtcome, left]
  rw [hleft]
  exact ⟨LogEntry.ofCall .., rfl, LogEntry.isWithin_ofCall ..⟩

/-! ### Evaluations -/

/-- An event that completes nothing counts for nothing. -/
theorem grows_tell_of_not_completes {e : EvaluationEvent R} (h : e.isWithin name = true)
    (hdone : e.completes name = false) : Grows (A := A) name 0 (tell e) := by
  have htell := grows_tell (A := A) h
  rwa [hdone, if_neg Bool.false_ne_true] at htell

theorem grows_announce [Quantity R] (name : Text) (result : EvaluationResult R) :
    Grows (A := A) name 0 (announce name result) := by
  let event : EvaluationEvent R :=
    .evaluationCompleted name result.accuracy result.correct result.total result.time
  have hwithin : event.isWithin name = true := decide_eq_true rfl
  exact (grows_tell_of_not_completes hwithin rfl).bind fun _ => .pure result

variable [Approach A]

theorem grows_dispose (name : Text) : Grows (A := A) (R := R) name 0 dispose := grows_call name _ _

theorem grows_disposeAfter (name : Text) (failure : Failure) :
    Grows (A := A) (R := R) name 0 (disposeAfter (α := α) name failure) := by
  intro s
  have hdispose := grows_dispose name s
  rw [disposeAfter]
  rcases hrun : dispose s with ⟨_, s'⟩ | ⟨second | _, s'⟩
  · rw [hrun] at hdispose
    exact hdispose
  · rw [hrun] at hdispose
    let event : EvaluationEvent R := .disposeFailed name second.message
    have hwithin : event.isWithin name = true := decide_eq_true rfl
    have htold := grows_tell_of_not_completes (A := A) hwithin rfl s'
    dsimp only
    split
    · rename_i heq
      rw [heq] at htold
      exact hdispose.trans htold
    · rename_i heq
      rw [heq] at htold
      exact hdispose.trans htold
  · rw [hrun] at hdispose
    exact hdispose

theorem grows_complete [Quantity R] (name : Text) (result : EvaluationResult R) :
    Grows (A := A) name 0 (complete name result) := by
  intro s
  have hdispose := grows_dispose name s
  rw [complete]
  rcases hrun : dispose s with ⟨_, s'⟩ | ⟨failure | _, s'⟩
  · rw [hrun] at hdispose
    exact hdispose.trans (grows_announce name result s')
  · rw [hrun] at hdispose
    exact hdispose
  · rw [hrun] at hdispose
    exact hdispose

variable [Quantity R]

theorem grows_predict (name : Text) (case : TestCase) :
    Grows (A := A) (R := R) name 0 (predict case) := by
  have hcall : Grows (R := R) name 0
      (call (.predict case.source case.id) (Approach.predict (A := A) case.source case.id)) :=
    grows_call name _ _
  change Grows name (0 + (0 + (0 + 0))) (predict case)
  refine grows_readClock.bind fun started => hcall.bind fun predictions =>
    grows_readClock.bind fun stopped => ?_
  cases Clock.elapsed started stopped with
  | ok time => exact .pure _
  | error fault => exact .throw _

/-- Each test case is done once at most. -/
theorem grows_runCases (name : Text) (cases : List TestCase) (t : CaseTally R) :
    Grows (A := A) name cases.length (runCases name cases t) := by
  induction cases generalizing t with
  | nil => exact .pure t
  | cons case rest ih =>
    have hstarted : Grows (A := A) (R := R) name 0 (tell (.caseStarted name case.id case.name)) :=
      grows_tell_of_not_completes (decide_eq_true (p := name = name) rfl) rfl
    have hdone (predictions : Nat) :
        Grows (A := A) (R := R) name 1 (tell (.caseCompleted name case.id predictions)) := by
      let event : EvaluationEvent R := .caseCompleted name case.id predictions
      have hcompletes : event.completes name = true := decide_eq_true rfl
      have htell := grows_tell (A := A) (e := event) hcompletes
      rwa [hcompletes, if_pos rfl] at htell
    have hall := hstarted.bind fun _ => (grows_predict name case).bind fun p =>
      (hdone p.1.length).bind fun _ => ih (t.add case p.1 p.2)
    rw [Nat.zero_add, Nat.zero_add, Nat.add_comm] at hall
    exact hall

theorem grows_scored (policy : ScoringPolicy) (name : Text) (cases : List TestCase)
    (options : Options) :
    Grows (A := A) (R := R) name cases.length (scored policy name cases options) := by
  have hconfigure : Grows (A := A) (R := R) name 0 (configure options) := grows_call name _ _
  have hscored : Grows (A := A) (R := R) name cases.length (predictAndScore policy name cases) := by
    change Grows name (cases.length + 0) (predictAndScore policy name cases)
    refine (grows_runCases name cases CaseTally.empty).bind fun t => ?_
    cases t.matching.result policy name t.predictions t.truths t.time with
    | ok result => exact .pure result
    | error report => exact .throw _
  have hall := hconfigure.bind fun _ => hscored
  rwa [Nat.zero_add] at hall

theorem grows_scoredAndDisposed (policy : ScoringPolicy) (name : Text) (cases : List TestCase)
    (options : Options) :
    Grows (A := A) (R := R) name cases.length (scoredAndDisposed policy name cases options) := by
  intro s
  have hscored := grows_scored policy name cases options s
  rw [scoredAndDisposed]
  rcases hrun : scored policy name cases options s with ⟨result, s'⟩ | ⟨failure | _, s'⟩
  · rw [hrun] at hscored
    exact hscored.trans (grows_complete name result s')
  · rw [hrun] at hscored
    exact hscored.trans (grows_disposeAfter name failure s')
  · rw [hrun] at hscored
    exact hscored

/-- **What an evaluation adds.** After its start an evaluation adds entries of its own alone, for
every observer and however it ends. -/
theorem grown_evaluate (policy : ScoringPolicy) (name : Text) (cases : List TestCase)
    (options : Options) (s : Session R A) :
    Grown name cases.length (s.record (.evaluationStarted name cases.length))
      (left (evaluate policy name cases options s)) := by
  let start : EvaluationEvent R := .evaluationStarted name cases.length
  rw [evaluate]
  cases hobserver : s.observer (LogEntry.told s.log) start with
  | error failure =>
    have htell : tell start s = .error (.failed failure) (s.record start) := by
      rw [tell, hobserver]
    rw [bind_of_error htell]
    exact (Grown.refl name _).mono (Nat.zero_le _)
  | ok _ =>
    have htell : tell start s = .ok () (s.record start) := by
      rw [tell, hobserver]
    rw [bind_of_ok htell]
    exact grows_scoredAndDisposed policy name cases options (s.record start)

end Session

/-! ### Benches -/

/-- What is recorded of an evaluation of a registered approach, which depends on how the observer
takes the start and on what comes of the evaluation. Nothing follows a start that is refused.
Otherwise the approach is set up with the options, called for test cases in their order and
disposed of. It is called for all of them where there is a result, and disposed of unless an
interrupt arrives. The entries of the approach are its own answers to these calls. -/
structure LogEntry.IsRun {R A α : Type} [Approach A] (name : Text) (r : Registration A)
    (cases : List TestCase) (options : Options) (start : Except Failure Unit)
    (outcome : Except Halt α) (run : List (LogEntry R)) : Prop where
  exists_rest : ∃ rest, run = .event (.evaluationStarted name cases.length) :: rest ∧
    IsWithin name cases.length rest
  refused : ∀ failure, start = .error failure →
    outcome = .error (.failed failure) ∧ run = [.event (.evaluationStarted name cases.length)]
  called : start = .ok () → ∃ asked isDisposed, asked <+: cases ∧
    calls run = ((.configure options :: asked.map Call.ofCase) ++
      if isDisposed then [Call.dispose] else []).map (r.number, ·) ∧
    (∀ result, outcome = .ok result → asked = cases) ∧
    (isDisposed = false → outcome = .error .interrupted)
  answered : run.filter isOfApproach = ofCalls r.number r.approach ((calls run).map (·.2))

/-- What is recorded of an evaluation are the calls of a course that its approach takes, and with
the outcome of this course the evaluation ends. -/
def LogEntry.IsCourse {R A : Type} [Quantity R] [Approach A] (policy : ScoringPolicy) (name : Text)
    (r : Registration A) (cases : List TestCase) (options : Options) (clock : Clock R)
    (outcome : Except Halt (EvaluationResult R)) (run : List (LogEntry R)) : Prop :=
  ∃ (course : Course R) (a : A) (clock' : Clock R),
    CourseRun policy name cases options r.approach clock course a clock' ∧
    outcome = course.ending name (Approach.dispose a).outcome ∧
    calls run = (course.calls options ++ if course.disposes then [Call.dispose] else []).map
      (r.number, ·)

/-- **What an evaluation records.** An evaluation records a run of its approach, which is then as
the calls of the run have left it. -/
theorem Session.exists_run {R A : Type} [Quantity R] [Approach A] (policy : ScoringPolicy)
    (name : Text) (cases : List TestCase) (options : Options) (s : Session R A) :
    ∃ outcome s' run, evaluate policy name cases options s = resultOf outcome s' ∧
      LogEntry.IsRun name s.registration cases options
        (s.observer (LogEntry.told s.log) (.evaluationStarted name cases.length)) outcome run ∧
      s'.log = s.log ++ run ∧ s'.observer = s.observer ∧
      s'.registration = ⟨s.registration.number,
        ((LogEntry.calls run).map (·.2)).foldl Approach.after s.registration.approach⟩ := by
  let start : EvaluationEvent R := .evaluationStarted name cases.length
  obtain ⟨hrefused, haccepted⟩ := evaluate_called policy name cases options s
  cases hobserver : s.observer (LogEntry.told s.log) start with
  | error failure =>
    refine ⟨.error (.failed failure), s.record start, [.event start], hrefused failure hobserver,
      ⟨⟨[], rfl, List.forall_mem_nil _, Nat.zero_le _⟩, fun failure' h => ?_, nofun, rfl⟩, rfl, rfl,
      rfl⟩
    obtain rfl := Except.error.inj h
    exact ⟨rfl, rfl⟩
  | ok =>
    obtain ⟨outcome, s', asked, isDisposed, hevaluate, hasked, hcalled, hall, hdisposed⟩ :=
      haccepted hobserver
    obtain ⟨added, hlog, hadded⟩ := hcalled.exists_added
    obtain ⟨added', hlog', hwithin⟩ := grown_evaluate policy name cases options s
    -- The calls and the events are told of one and the same entries.
    have hleft : left (resultOf outcome s') = s' := by cases outcome <;> rfl
    rw [hevaluate, hleft, hlog] at hlog'
    obtain rfl := List.append_cancel_left hlog'
    have hcalls := congrArg LogEntry.calls hadded
    rw [LogEntry.calls_filter_isOfApproach, LogEntry.calls_ofCalls] at hcalls
    have hmade : ((LogEntry.calls (.event start :: added)).map (·.2)) =
        (.configure options :: asked.map Call.ofCase) ++
          if isDisposed then [.dispose] else [] := by
      rw [LogEntry.calls_cons_event, hcalls, List.map_map]
      exact List.map_id _
    refine ⟨outcome, s', .event start :: added, hevaluate, ⟨⟨added, rfl, hwithin⟩, nofun,
      fun _ => ⟨asked, isDisposed, hasked, hcalls, hall, hdisposed⟩, ?_⟩, ?_,
      hcalled.observer_eq, ?_⟩
    · rw [hmade]
      exact hadded
    · rw [hlog, record, List.append_assoc]
      rfl
    · rw [hmade]
      exact hcalled.registration_eq

/-! ### Evaluations one after the other -/

/-- The evaluation of one approach among others: its name, what comes of the evaluation, and what it
records. -/
structure Run (R : Type) where
  name : Text
  outcome : Except Halt (EvaluationResult R)
  entries : List (LogEntry R)

namespace Run

variable {R A : Type}

/-- The result of a run under the name of the approach, if there is one. -/
def result? (run : Run R) : Option (Text × EvaluationResult R) :=
  match run.outcome with
  | .ok result => some (run.name, result)
  | .error _ => none

/-- The report of a failure. -/
def report (run : Run R) : List (LogEntry R) :=
  match run.outcome with
  | .error (.failed failure) => [.event (.evaluationFailed run.name failure.message)]
  | _ => []

/-- All that is recorded of a run: its entries, and then the report of its failure. -/
def recorded (run : Run R) : List (LogEntry R) := run.entries ++ run.report

/-- What keeps other runs from following a run after a record: an interrupt, or an observer that
fails at the report of a failure. -/
def stop? (run : Run R) (observer : Observer R) (log : List (LogEntry R)) : Option Halt :=
  match run.outcome with
  | .ok _ => none
  | .error .interrupted => some .interrupted
  | .error (.failed failure) =>
    match observer (LogEntry.told (log ++ run.entries))
        (.evaluationFailed run.name failure.message) with
    | .ok () => none
    | .error second => some (.failed second)

/-- A run after a record is one of the approach that is found under its name. -/
def IsOf [Approach A] (run : Run R) (find? : Text → Option (Registration A))
    (cases : List TestCase) (optionsOf : Text → Options) (observer : Observer R)
    (log : List (LogEntry R)) : Prop :=
  ∃ r, find? run.name = some r ∧ LogEntry.IsRun run.name r cases (optionsOf run.name)
    (observer (LogEntry.told log) (.evaluationStarted run.name cases.length)) run.outcome
    run.entries

end Run

/-- Runs of the approaches that are found under names, one after the other from a record on. They
keep to the order of the names, and none follows one that ends them all. Either every name has its
run and all results are returned, or the last run ends them. -/
structure AreRuns {R A : Type} [Approach A] (find? : Text → Option (Registration A))
    (cases : List TestCase) (optionsOf : Text → Options) (names : List Text)
    (observer : Observer R) (log : List (LogEntry R)) (outcome : Except Halt (Bench.Results R))
    (runs : List (Run R)) : Prop where
  names_prefix : runs.map (·.name) <+: names
  isOf : ∀ before run after, runs = before ++ run :: after →
    run.IsOf find? cases optionsOf observer (log ++ before.flatMap (·.recorded)) ∧
      (after ≠ [] → run.stop? observer (log ++ before.flatMap (·.recorded)) = none)
  results : ∀ results, outcome = .ok results →
    runs.map (·.name) = names ∧ results = runs.filterMap (·.result?)
  halted : ∀ halt, outcome = .error halt → ∃ before last, runs = before ++ [last] ∧
    last.stop? observer (log ++ before.flatMap (·.recorded)) = some halt

section AreRuns

variable {R A : Type} [Approach A] {find? : Text → Option (Registration A)} {cases : List TestCase}
  {optionsOf : Text → Options} {names : List Text} {observer : Observer R}
  {log : List (LogEntry R)} {outcome : Except Halt (Bench.Results R)} {run : Run R}
  {runs : List (Run R)}

theorem areRuns_nil (find? : Text → Option (Registration A)) (cases : List TestCase)
    (optionsOf : Text → Options) (observer : Observer R) (log : List (LogEntry R)) :
    AreRuns find? cases optionsOf [] observer log (.ok []) [] where
  names_prefix := List.prefix_rfl
  isOf _ _ _ h := absurd h.symm (List.append_ne_nil_of_right_ne_nil _ (List.cons_ne_nil _ _))
  results _ h := ⟨rfl, (Except.ok.inj h).symm⟩
  halted := nofun

/-- Approaches that are found under the names are enough. -/
theorem AreRuns.congr {find?' : Text → Option (Registration A)}
    (h : AreRuns find?' cases optionsOf names observer log outcome runs)
    (hsame : ∀ name ∈ names, find?' name = find? name) :
    AreRuns find? cases optionsOf names observer log outcome runs where
  names_prefix := h.names_prefix
  isOf := by
    intro before run after hsplit
    obtain ⟨⟨r, hfind, hrun⟩, hstop⟩ := h.isOf before run after hsplit
    have hmem : run.name ∈ names :=
      h.names_prefix.subset (List.mem_map_of_mem (hsplit ▸ List.mem_append_cons_self))
    exact ⟨⟨r, hsame run.name hmem ▸ hfind, hrun⟩, hstop⟩
  results := h.results
  halted := h.halted

/-- What holds of the first part of a list and of all later ones holds of every part. -/
theorem forall_split_cons {α : Type} {P : List α → α → List α → Prop} {first : α} {rest : List α}
    (hfirst : P [] first rest)
    (hrest : ∀ before a after, rest = before ++ a :: after → P (first :: before) a after) :
    ∀ before a after, first :: rest = before ++ a :: after → P before a after := by
  intro before a after hsplit
  rcases List.cons_eq_append_iff.1 hsplit with ⟨rfl, h⟩ | ⟨before', rfl, h⟩
  · obtain ⟨rfl, rfl⟩ := List.cons_eq_cons.1 h
    exact hfirst
  · exact hrest before' a after h

/-- A run that ends them all. -/
theorem Run.IsOf.areRuns_last (hrun : run.IsOf find? cases optionsOf observer log) {halt : Halt}
    (hstop : run.stop? observer log = some halt) (rest : List Text) :
    AreRuns find? cases optionsOf (run.name :: rest) observer log (.error halt) [run] where
  names_prefix := List.cons_prefix_cons.2 ⟨rfl, List.nil_prefix⟩
  isOf := by
    refine forall_split_cons ⟨(List.append_nil log).symm ▸ hrun, absurd rfl⟩
      fun before other after h => ?_
    exact absurd h.symm (List.append_ne_nil_of_right_ne_nil _ (List.cons_ne_nil _ _))
  results := nofun
  halted := by
    rintro _ ⟨⟩
    exact ⟨[], run, rfl, (List.append_nil log).symm ▸ hstop⟩

/-- A run before others. -/
theorem Run.IsOf.areRuns_cons (hrun : run.IsOf find? cases optionsOf observer log)
    (hstop : run.stop? observer log = none)
    (hrest : AreRuns find? cases optionsOf names observer (log ++ run.recorded) outcome runs) :
    AreRuns find? cases optionsOf (run.name :: names) observer log
      (outcome.map (run.result?.toList ++ ·)) (run :: runs) where
  names_prefix := List.cons_prefix_cons.2 ⟨rfl, hrest.names_prefix⟩
  isOf := by
    refine forall_split_cons
      ⟨(List.append_nil log).symm ▸ hrun, fun _ => (List.append_nil log).symm ▸ hstop⟩
      fun before other after h => ?_
    rw [List.flatMap_cons, ← List.append_assoc]
    exact hrest.isOf before other after h
  results := by
    intro results h
    cases outcome with
    | error => cases h
    | ok later =>
      obtain ⟨hnames, rfl⟩ := hrest.results later rfl
      refine ⟨congrArg (run.name :: ·) hnames, (Except.ok.inj h).symm.trans ?_⟩
      rw [List.filterMap_cons]
      cases run.result? <;> rfl
  halted := by
    intro halt h
    cases outcome with
    | ok => cases h
    | error =>
      obtain rfl := Except.error.inj h
      obtain ⟨before, last, rfl, hlast⟩ := hrest.halted _ rfl
      refine ⟨run :: before, last, rfl, ?_⟩
      rw [List.flatMap_cons, ← List.append_assoc]
      exact hlast

end AreRuns

/-! ### Benches -/

/-- Putting a part in the place of another one makes no difference to what is the same of both. -/
theorem Named.map_put {α β : Type} {f : Text × α → β} {name : Text} {part found : α}
    {parts : Named α} (hfind : parts.lookup name = some found)
    (hsame : f (name, part) = f (name, found)) : (put name part parts).map f = parts.map f := by
  induction parts with
  | nil => cases hfind
  | cons entry rest ih =>
    obtain ⟨other, old⟩ := entry
    rw [lookup_cons] at hfind
    rw [put]
    by_cases hother : name = other
    · subst hother
      rw [if_pos rfl] at hfind
      obtain rfl := Option.some.inj hfind
      rw [if_pos rfl, List.map_cons, List.map_cons, hsame]
    · rw [if_neg hother] at hfind
      rw [if_neg fun e => hother e.symm, List.map_cons, List.map_cons, ih hfind]

namespace Bench

variable {R A : Type}

/-- The numbers of the registered approaches under their names. -/
def numbers (bench : Bench A) : Named Nat :=
  bench.registry.map fun entry => (entry.1, entry.2.number)

/-- Keeping an approach of the same number under a name changes no number. -/
theorem numbers_keep {bench : Bench A} {name : Text} {r r' : Registration A}
    (hfind : bench.find? name = some r) (hnumber : r'.number = r.number) :
    (bench.keep name r').numbers = bench.numbers :=
  Named.map_put hfind (congrArg (Prod.mk name) hnumber)

variable [Quantity R] [Approach A]

/-- An evaluation records a run of the approach of its name, and keeps it under the name as the
calls of the run have left it. -/
theorem exists_run {bench : Bench A} {name : Text} {r : Registration A}
    (hfind : bench.find? name = some r) (world : World R) (cases : List TestCase)
    (options : Options) :
    let turn := bench.evaluate world name cases options
    ∃ run, LogEntry.IsRun name r cases options
        (world.tell (.evaluationStarted name cases.length)) turn.outcome run ∧
      turn.world.log = world.log ++ run ∧ turn.world.observer = world.observer ∧
      turn.bench = bench.keep name
        ⟨r.number, ((LogEntry.calls run).map (·.2)).foldl Approach.after r.approach⟩ := by
  obtain ⟨outcome, s', run, hevaluate, hrun, hlog, hobserver, hregistration⟩ :=
    Session.exists_run bench.policy name cases options
      ⟨r, world.clock, world.observer, world.log⟩
  have hturn : bench.evaluate world name cases options =
      ⟨outcome, bench.keep name s'.registration, ⟨s'.clock, s'.observer, s'.log⟩⟩ := by
    rw [evaluate, hfind]
    dsimp only
    rw [hevaluate, turnOf_resultOf]
  rw [hturn]
  exact ⟨run, hrun, hlog, hobserver, congrArg (bench.keep name) hregistration⟩

/-- Where the observer never fails, an evaluation records a course of the approach of its name. -/
theorem isCourse_of_log {bench : Bench A} {name : Text} {r : Registration A}
    (hfind : bench.find? name = some r) {world : World R} (hobserver : world.observer.NeverFails)
    {cases : List TestCase} {options : Options} {run : List (LogEntry R)}
    (hlog : (bench.evaluate world name cases options).world.log = world.log ++ run) :
    LogEntry.IsCourse bench.policy name r cases options world.clock
      (bench.evaluate world name cases options).outcome run := by
  obtain ⟨course, a, _, clock, added, hcourse, hevaluate, hcalls, -⟩ :=
    evaluate_run hfind hobserver cases options
  rw [hevaluate] at hlog ⊢
  obtain rfl := List.append_cancel_left hlog
  exact ⟨course, a, clock, hcourse, rfl, hcalls⟩

theorem evaluate_of_not_registered {bench : Bench A} {name : Text}
    (hfind : bench.find? name = none) (world : World R) (cases : List TestCase)
    (options : Options) :
    bench.evaluate world name cases options =
      ⟨.error (.failed (.bench (.unregistered name))), bench, world⟩ := by
  rw [evaluate, hfind]

/-- No evaluation changes the numbers under the names. -/
theorem numbers_evaluate (bench : Bench A) (world : World R) (name : Text)
    (cases : List TestCase) (options : Options) :
    (bench.evaluate world name cases options).bench.numbers = bench.numbers := by
  cases hfind : bench.find? name with
  | none => rw [evaluate_of_not_registered hfind]
  | some r =>
    obtain ⟨run, -, -, -, hbench⟩ := exists_run hfind world cases options
    rw [hbench]
    exact numbers_keep hfind rfl

/-- What evaluations of some names and reports of their failures keep, evaluations of these names
one after the other keep. -/
theorem evaluateNames_keeps_of_mem {P : Bench A → World R → Prop} {cases : List TestCase}
    {optionsOf : Text → Options} {names : List Text}
    (hevaluate : ∀ name ∈ names, ∀ bench world, P bench world →
      P (bench.evaluate world name cases (optionsOf name)).bench
        (bench.evaluate world name cases (optionsOf name)).world)
    (hfailed : ∀ name ∈ names, ∀ bench world reason, P bench world →
      P bench (world.record (.evaluationFailed name reason)))
    {bench : Bench A} {world : World R} (h : P bench world) :
    P (evaluateNames cases optionsOf names bench world).bench
      (evaluateNames cases optionsOf names bench world).world := by
  induction names generalizing bench world with
  | nil => exact h
  | cons name rest ih =>
    obtain ⟨hevaluateName, hevaluateRest⟩ := List.forall_mem_cons.1 hevaluate
    obtain ⟨hfailedName, hfailedRest⟩ := List.forall_mem_cons.1 hfailed
    have hfirst := hevaluateName bench world h
    rw [evaluateNames]
    generalize bench.evaluate world name cases (optionsOf name) = turn at hfirst
    rcases turn with ⟨(failure | _) | result, bench', world'⟩
    · have hreported := hfailedName bench' world' failure.message hfirst
      dsimp only
      cases world'.tell (.evaluationFailed name failure.message) with
      | ok => exact ih hevaluateRest hfailedRest hreported
      | error => exact hreported
    · exact hfirst
    · exact ih hevaluateRest hfailedRest hfirst

/-- What evaluations and reports of failures keep, evaluations one after the other keep. -/
theorem evaluateNames_keeps {P : Bench A → World R → Prop} {cases : List TestCase}
    {optionsOf : Text → Options}
    (hevaluate : ∀ bench world name, P bench world →
      P (bench.evaluate world name cases (optionsOf name)).bench
        (bench.evaluate world name cases (optionsOf name)).world)
    (hfailed : ∀ bench world name reason, P bench world →
      P bench (world.record (.evaluationFailed name reason)))
    (names : List Text) {bench : Bench A} {world : World R} (h : P bench world) :
    P (evaluateNames cases optionsOf names bench world).bench
      (evaluateNames cases optionsOf names bench world).world :=
  evaluateNames_keeps_of_mem (fun name _ bench world => hevaluate bench world name)
    (fun name _ bench world => hfailed bench world name) h

/-- Neither does evaluating all approaches. -/
theorem numbers_evaluateAll (bench : Bench A) (world : World R) (cases : List TestCase)
    (optionsOf : Text → Options) :
    (bench.evaluateAll world cases optionsOf).bench.numbers = bench.numbers :=
  evaluateNames_keeps (P := fun bench' _ => bench'.numbers = bench.numbers)
    (fun bench' world' name h => (numbers_evaluate bench' world' name cases _).trans h)
    (fun _ _ _ _ h => h) bench.names rfl

/-- Evaluations one after the other begin with a run and its report, after which the other ones
follow unless the run ends them. -/
theorem evaluateNames_of_run {cases : List TestCase} {optionsOf : Text → Options} (run : Run R)
    {bench bench' : Bench A} {world world' : World R}
    (hevaluate : bench.evaluate world run.name cases (optionsOf run.name) =
      ⟨run.outcome, bench', world'⟩)
    (hobserver : world'.observer = world.observer) (hlog : world'.log = world.log ++ run.entries)
    (rest : List Text) :
    ∃ later : World R, later.observer = world.observer ∧
      later.log = world.log ++ run.recorded ∧
      evaluateNames cases optionsOf (run.name :: rest) bench world =
        match run.stop? world.observer world.log with
        | none =>
          let turn := evaluateNames cases optionsOf rest bench' later
          { turn with outcome := turn.outcome.map (run.result?.toList ++ ·) }
        | some halt => ⟨.error halt, bench', later⟩ := by
  obtain ⟨name, outcome, entries⟩ := run
  dsimp only at hevaluate hlog
  have hquiet : world'.log = world.log ++ (entries ++ []) := by rw [hlog, List.append_nil]
  dsimp only
  rw [evaluateNames, hevaluate]
  rcases outcome with (failure | _) | result
  · let event : EvaluationEvent R := .evaluationFailed name failure.message
    have htell : world'.tell event =
        world.observer (LogEntry.told (world.log ++ entries)) event := by
      rw [World.tell, hobserver, hlog]
    refine ⟨world'.record event, hobserver, ?_, ?_⟩
    · rw [World.record, hlog, List.append_assoc]
      rfl
    · dsimp only [Run.stop?]
      rw [htell]
      cases world.observer (LogEntry.told (world.log ++ entries)) event with
      | error second => rfl
      | ok =>
        dsimp only
        obtain ⟨halt | results, _, _⟩ :=
          evaluateNames cases optionsOf rest bench' (world'.record event) <;> rfl
  · exact ⟨world', hobserver, hquiet, rfl⟩
  · exact ⟨world', hobserver, hquiet, rfl⟩

/-- Evaluations of registered approaches one after the other record runs of these approaches as they
were before all of them. -/
theorem exists_runs (cases : List TestCase) (optionsOf : Text → Options) {names : List Text}
    {bench : Bench A} (hnodup : names.Nodup) (hnames : ∀ name ∈ names, bench.find? name ≠ none)
    (world : World R) :
    let turn := evaluateNames cases optionsOf names bench world
    ∃ runs, AreRuns bench.find? cases optionsOf names world.observer world.log turn.outcome runs ∧
      turn.world.log = world.log ++ runs.flatMap (·.recorded) := by
  induction names generalizing bench world with
  | nil => exact ⟨[], areRuns_nil .., (List.append_nil _).symm⟩
  | cons name rest ih =>
    obtain ⟨hnew, hrest⟩ := List.nodup_cons.1 hnodup
    obtain ⟨hname, hothers⟩ := List.forall_mem_cons.1 hnames
    obtain ⟨r, hfind⟩ := Option.ne_none_iff_exists'.1 hname
    obtain ⟨entries, hrun, hlog, hobserver, hbench⟩ :=
      exists_run hfind world cases (optionsOf name)
    -- The other approaches are as they were before the first evaluation.
    have hkept : ∀ other ∈ rest, (bench.evaluate world name cases (optionsOf name)).bench.find?
        other = bench.find? other := fun other hother => by
      rw [hbench, find?_keep, if_neg (ne_of_mem_of_not_mem hother hnew)]
    generalize hturn : bench.evaluate world name cases (optionsOf name) = turn
      at hrun hlog hobserver hkept
    obtain ⟨outcome, bench', world'⟩ := turn
    let run : Run R := ⟨name, outcome, entries⟩
    have hfirst : run.IsOf bench.find? cases optionsOf world.observer world.log := ⟨r, hfind, hrun⟩
    obtain ⟨later, hobserver', hlog', heq⟩ :=
      evaluateNames_of_run run hturn hobserver hlog rest
    rw [heq]
    cases hstop : run.stop? world.observer world.log with
    | some halt =>
      refine ⟨[run], hfirst.areRuns_last hstop rest, ?_⟩
      rw [List.flatMap_singleton]
      exact hlog'
    | none =>
      obtain ⟨runs, hruns, hlater⟩ :=
        ih hrest (fun other hother => hkept other hother ▸ hothers other hother) later
      rw [hobserver', hlog'] at hruns
      refine ⟨run :: runs, hfirst.areRuns_cons hstop (hruns.congr hkept), ?_⟩
      dsimp only
      rw [hlater, hlog', List.flatMap_cons, List.append_assoc]

/-- Evaluating all approaches records runs of them, in the order of their names. -/
theorem exists_runs_all {bench : Bench A} (hnodup : bench.names.Nodup) (world : World R)
    (cases : List TestCase) (optionsOf : Text → Options) :
    let turn := bench.evaluateAll world cases optionsOf
    ∃ runs, AreRuns bench.find? cases optionsOf bench.names world.observer world.log turn.outcome
        runs ∧
      turn.world.log = world.log ++ runs.flatMap (·.recorded) :=
  exists_runs cases optionsOf hnodup
    (fun name hname => (Named.mem_names_iff name bench.registry).1 hname) world

end Bench

/-! ### Calls of a bench -/

/-- A call of a bench. -/
inductive BenchCall (A : Type) where
  | register (approach : A)
  | evaluate (name : Text) (cases : List TestCase) (options : Options)
  | evaluateAll (cases : List TestCase) (optionsOf : Text → Options)

namespace BenchCall

variable {R A : Type} [Quantity R] [Approach A]

/-- A bench and its world after a call, whatever the outcome of the call. -/
def perform (state : Bench A × World R) : BenchCall A → Bench A × World R
  | register approach =>
    ((state.1.register state.2 approach).bench, (state.1.register state.2 approach).world)
  | evaluate name cases options =>
    ((state.1.evaluate state.2 name cases options).bench,
      (state.1.evaluate state.2 name cases options).world)
  | evaluateAll cases optionsOf =>
    ((state.1.evaluateAll state.2 cases optionsOf).bench,
      (state.1.evaluateAll state.2 cases optionsOf).world)

/-- A bench and its world after calls in order. -/
def performAll (calls : List (BenchCall A)) (state : Bench A × World R) : Bench A × World R :=
  calls.foldl perform state

/-- The approach that a call registers. -/
def registered? : BenchCall A → Option A
  | register approach => some approach
  | _ => none

end BenchCall

end TypeBench
