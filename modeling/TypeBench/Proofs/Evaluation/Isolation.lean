import TypeBench.Proofs.Evaluation.Repetition
import TypeBench.Proofs.Evaluation.Success
import TypeBench.Proofs.Evaluation.Use

/-!
# Isolation of evaluations

An evaluation of all approaches visits each of them once, in the order of their names. What comes of
a visit depends on its own approach alone: it is what an evaluation of this approach on another
bench and in another world would come to, but for the time. A failure ends one visit and is
reported after the approach was disposed of, before the next visit begins.

## Main definitions

* `Bench.Reachable`: benches that come of registering and evaluating approaches.
* `Visit`: the evaluation of one approach among others, with its entries and its verdict.
* `Visit.IsIsolated`: a visit that depends on its own approach alone.

## Main results

* `Bench.Reachable.nodup_names`: no name is registered twice.
* `Bench.Reachable.evaluateAll`: a bench stays reachable when all its approaches are evaluated.
* `Bench.evaluate_visit`: an evaluation is a visit.
* `Bench.evaluateNames_visits`: evaluations one after the other are visits one after the other.
* `Bench.evaluateAll_isolated`: the same of the evaluation of all approaches.
-/

namespace TypeBench

/-! ### Reachable benches -/

section Reachable

variable {A : Type} [Approach A]

/-- Benches that come of registering and evaluating approaches. -/
inductive Bench.Reachable (R : Type) [Quantity R] : Bench A → Prop
  | empty (policy : ScoringPolicy) : Reachable R (Bench.empty policy)
  | register {bench : Bench A} (h : Reachable R bench) (world : World R) (approach : A) :
      Reachable R (bench.register world approach).bench
  | evaluate {bench : Bench A} (h : Reachable R bench) (world : World R) (name : Text)
      (cases : List TestCase) (options : Options) :
      Reachable R (bench.evaluate world name cases options).bench

variable {R : Type} [Quantity R] {bench : Bench A}

/-- No name is registered twice. -/
theorem Bench.Reachable.nodup_names (h : Reachable R bench) : bench.names.Nodup := by
  induction h with
  | empty => exact List.nodup_nil
  | register _ _ _ ih => exact Named.nodup_names_put _ _ ih
  | @evaluate bench _ world name cases options ih =>
    rw [Bench.evaluate]
    cases bench.find? name with
    | none => exact ih
    | some registration =>
      dsimp only
      rw [bench_turnOf]
      exact Named.nodup_names_put _ _ ih

/-- Evaluating approaches of names one after the other leads to no other benches. -/
theorem Bench.Reachable.evaluateNames (h : Reachable R bench) (cases : List TestCase)
    (optionsOf : Text → Options) (names : List Text) (world : World R) :
    Reachable R (Bench.evaluateNames cases optionsOf names bench world).bench := by
  induction names generalizing bench world with
  | nil => exact h
  | cons name rest ih =>
    have hfirst : Reachable R (bench.evaluate world name cases (optionsOf name)).bench :=
      .evaluate h ..
    rw [Bench.evaluateNames]
    generalize bench.evaluate world name cases (optionsOf name) = turn at hfirst
    rcases turn with ⟨(failure | _) | result, bench', world'⟩
    · dsimp only
      cases world'.tell (.evaluationFailed name failure.message) with
      | ok => exact ih hfirst _
      | error => exact hfirst
    · exact hfirst
    · exact ih hfirst _

/-- Neither does evaluating all of them. -/
theorem Bench.Reachable.evaluateAll (h : Reachable R bench) (world : World R)
    (cases : List TestCase) (optionsOf : Text → Options) :
    Reachable R (bench.evaluateAll world cases optionsOf).bench :=
  h.evaluateNames cases optionsOf bench.names world

end Reachable

/-! ### Visits -/

/-- Whether an event tells how an evaluation ended. -/
def EvaluationEvent.isVerdict {R : Type} : EvaluationEvent R → Bool
  | .evaluationCompleted .. => true
  | .evaluationFailed .. => true
  | _ => false

/-- The evaluation of one approach among others: the entries that it adds, and its outcome. -/
structure Visit (R : Type) where
  name : Text
  added : List (LogEntry R)
  outcome : Except Failure (EvaluationResult R)

namespace Visit

variable {R : Type}

/-- The result of a visit under the name of the approach, if there is one. -/
def result? (v : Visit R) : Option (Text × EvaluationResult R) :=
  match v.outcome with
  | .ok result => some (v.name, result)
  | .error _ => none

/-- The report of a failure. -/
def report (v : Visit R) : List (LogEntry R) :=
  match v.outcome with
  | .ok _ => []
  | .error failure => [.event (.evaluationFailed v.name failure.message)]

/-- All entries of a visit: those of the evaluation, and then the report of its failure. -/
def entries (v : Visit R) : List (LogEntry R) := v.added ++ v.report

/-- The event that tells how a visit ended. -/
def verdict (v : Visit R) : EvaluationEvent R :=
  match v.outcome with
  | .ok result =>
    .evaluationCompleted v.name result.accuracy result.correct result.total result.time
  | .error failure => .evaluationFailed v.name failure.message

/-- The outcome as that of an evaluation. -/
def ending (v : Visit R) : Except Halt (EvaluationResult R) := v.outcome.mapError .failed

/-- A visit is a course of its approach up to the disposal and has one verdict. Its outcome is that
of an evaluation of the same approach on any other bench and in any other world, but for the
time. -/
structure IsIsolated {A : Type} [Approach A] (v : Visit Binary64) (policy : ScoringPolicy)
    (registration : Registration A) (cases : List TestCase) (options : Options) : Prop where
  course : ∃ (course : Course Binary64) (a : A) (clock clock' : Clock Binary64),
    CourseRun policy v.name cases options registration.approach clock course a clock' ∧
      LogEntry.calls v.added =
        (course.calls options ++ [Call.dispose]).map (registration.number, ·) ∧
      LogEntry.told v.added =
        .evaluationStarted v.name cases.length ::
          (course.events v.name ++ course.closing v.name (Approach.dispose a).outcome) ∧
      v.ending = course.ending v.name (Approach.dispose a).outcome
  approach_eq : ∀ result, v.outcome = .ok result → result.approach = v.name
  verdicts : (LogEntry.told v.entries).filter (·.isVerdict) = [v.verdict]
  alone : ∀ (bench : Bench A) (world : World Binary64) (other : Registration A),
    bench.policy = policy → bench.find? v.name = some other →
      other.approach = registration.approach → world.clock.Steady → world.observer.NeverFails →
        (bench.evaluate world v.name cases options).outcome.map EvaluationResult.untimed =
          v.ending.map EvaluationResult.untimed

end Visit

/-! ### Verdicts -/

theorem CasesRun.filter_isVerdict_events {R : Type} (name : Text) (done : List (CompletedCase R))
    (last? : Option BrokenCase) : (events name done last?).filter (·.isVerdict) = [] := by
  induction done with
  | nil => cases last? <;> rfl
  | cons first done ih =>
    rw [events_cons]
    exact ih

/-- An evaluation comes to a result if its course does, and the approach can be disposed of. -/
theorem Course.of_ending_eq_ok {R : Type} {course : Course R} {name : Text}
    {disposal : Except Halt Unit} {result : EvaluationResult R}
    (h : course.ending name disposal = .ok result) :
    course.outcome = .ok result ∧ disposal = .ok () := by
  obtain ⟨done, last?, scored⟩ := course
  rcases scored with (failure | _) | scored
  · rcases disposal with (second | _) | _ <;> cases h
  · cases h
  · rcases disposal with (second | _) | _
    · cases h
    · cases h
    · exact ⟨h, rfl⟩

/-- A course to a result closes with its verdict. -/
theorem Course.closing_of_ok {R : Type} {course : Course R} {result : EvaluationResult R}
    (h : course.outcome = .ok result) (name : Text) :
    course.closing name (.ok ()) =
      [.evaluationCompleted name result.accuracy result.correct result.total result.time] := by
  obtain ⟨done, last?, scored⟩ := course
  subst h
  rfl

/-- A course to a failure closes without a verdict. -/
theorem Course.filter_isVerdict_closing {R : Type} {course : Course R} {name : Text}
    {disposal : Except Halt Unit} {halt : Halt} (h : course.ending name disposal = .error halt) :
    (course.closing name disposal).filter (·.isVerdict) = [] := by
  obtain ⟨done, last?, scored⟩ := course
  rcases scored with (first | _) | result
  · rcases disposal with (second | _) | _ <;> rfl
  · rfl
  · rcases disposal with (second | _) | _
    · rfl
    · rfl
    · cases h

/-- Where no interrupt arrives, an evaluation ends with a result or with a failure. -/
theorem Course.exists_ending_eq {R : Type} {course : Course R} {disposal : Except Halt Unit}
    (hcourse : course.outcome ≠ .error .interrupted) (hdisposal : disposal ≠ .error .interrupted)
    (name : Text) :
    ∃ outcome : Except Failure (EvaluationResult R),
      outcome.mapError .failed = course.ending name disposal := by
  obtain ⟨done, last?, scored⟩ := course
  rcases disposal with (second | _) | _
  · rcases scored with (first | _) | result
    · exact ⟨.error first, rfl⟩
    · exact absurd rfl hcourse
    · exact ⟨.error _, rfl⟩
  · exact absurd rfl hdisposal
  · rcases scored with (first | _) | result
    · exact ⟨.error first, rfl⟩
    · exact absurd rfl hcourse
    · exact ⟨.ok result, rfl⟩

theorem Course.disposes_eq_true {R : Type} {course : Course R}
    (h : course.outcome ≠ .error .interrupted) : course.disposes = true := by
  obtain ⟨done, last?, scored⟩ := course
  rcases scored with (failure | _) | result
  · rfl
  · exact absurd rfl h
  · rfl

/-- A visit has one verdict: a result is announced by the evaluation, and a failure is reported
after it. -/
theorem Visit.filter_isVerdict_entries {R : Type} {v : Visit R} {course : Course R}
    {disposal : Except Halt Unit} {cases : Nat}
    (htold : LogEntry.told v.added = .evaluationStarted v.name cases ::
      (course.events v.name ++ course.closing v.name disposal))
    (hending : v.ending = course.ending v.name disposal) :
    (LogEntry.told v.entries).filter (·.isVerdict) = [v.verdict] := by
  have hevents : (course.events v.name).filter (·.isVerdict) = [] :=
    CasesRun.filter_isVerdict_events v.name course.completed course.broken?
  have hadded : (LogEntry.told v.added).filter (·.isVerdict) =
      (course.closing v.name disposal).filter (·.isVerdict) := by
    rw [htold, List.filter_cons_of_neg Bool.false_ne_true, List.filter_append, hevents,
      List.nil_append]
  rw [entries, LogEntry.told_append, List.filter_append, hadded, report, verdict]
  cases houtcome : v.outcome with
  | ok result =>
    rw [ending, houtcome] at hending
    obtain ⟨hscored, rfl⟩ := Course.of_ending_eq_ok hending.symm
    rw [Course.closing_of_ok hscored]
    rfl
  | error failure =>
    rw [ending, houtcome] at hending
    rw [Course.filter_isVerdict_closing hending.symm]
    rfl

/-! ### Evaluations as visits -/

/-- An approach answers as it does itself. -/
theorem Approach.reproduces_eq {A : Type} [Approach A] (options : Options) :
    Approach.Reproduces (A := A) options Eq Eq where
  configure := by
    rintro a _ rfl
    exact ⟨rfl, rfl, fun _ => rfl⟩
  predict := by
    rintro a _ rfl source file
    exact ⟨rfl, rfl⟩
  dispose := by
    rintro a _ rfl
    exact ⟨rfl, rfl⟩
  ready h := h

namespace Bench

variable {A : Type} [Approach A] {bench : Bench A} {w : World Binary64} {name : Text}
  {registration : Registration A}

/-- The result of an evaluation bears the name of the approach. -/
theorem approach_eq_of_evaluate {cases : List TestCase} {options : Options}
    {result : EvaluationResult Binary64}
    (h : (bench.evaluate w name cases options).outcome = .ok result) : result.approach = name := by
  obtain ⟨_, done, _, _, -, hcourse⟩ := evaluate_ok h
  obtain ⟨-, hscore⟩ := hcourse.score_of_ok
  rw [CaseTally.scores_of_score hscore]
  rfl

/-- On another bench and in another world an approach is evaluated alike, but for the time. -/
theorem evaluate_alone {other : Bench A} {w' : World Binary64} {found : Registration A}
    (hfind : bench.find? name = some registration) (hclock : w.clock.Steady)
    (hobserver : w.observer.NeverFails) (hpolicy : other.policy = bench.policy)
    (hfound : other.find? name = some found) (hsame : found.approach = registration.approach)
    (hclock' : w'.clock.Steady) (hobserver' : w'.observer.NeverFails) (cases : List TestCase)
    (options : Options) :
    (other.evaluate w' name cases options).outcome.map EvaluationResult.untimed =
        (bench.evaluate w name cases options).outcome.map EvaluationResult.untimed ∧
      (bench.evaluate w name cases options).world.clock.Steady := by
  have hworld : w.Match w' :=
    ⟨hclock, hclock', Observer.alikeAfter_of_neverFails hobserver hobserver'⟩
  obtain ⟨houtcome, hleft, -⟩ := evaluate_alike (Approach.reproduces_eq options) hpolicy hworld
    hfind hfound hsame.symm cases
  exact ⟨houtcome.symm, hleft.clock⟩

/-- An evaluation is a visit. -/
theorem evaluate_visit (hfind : bench.find? name = some registration)
    (happroach : Approach.NeverInterrupts registration.approach) (hclock : w.clock.Steady)
    (hobserver : w.observer.NeverFails) (cases : List TestCase) (options : Options) :
    ∃ (v : Visit Binary64) (kept : Registration A) (clock : Clock Binary64),
      v.name = name ∧ v.IsIsolated bench.policy registration cases options ∧
      bench.evaluate w name cases options =
        ⟨v.ending, bench.keep name kept, ⟨clock, w.observer, w.log ++ v.added⟩⟩ ∧
      clock.Steady := by
  obtain ⟨course, a, a', clock, added, hrun, heq, hcalls, htold⟩ :=
    evaluate_run hfind hobserver cases options
  obtain ⟨ha, hcourse⟩ := hrun.neverInterrupts happroach hclock.neverInterrupts
  obtain ⟨outcome, hending⟩ := Course.exists_ending_eq hcourse (ha [] .dispose) name
  let v : Visit Binary64 := ⟨name, added, outcome⟩
  have hevaluate : bench.evaluate w name cases options = ⟨v.ending, bench.keep name
      { registration with approach := a' }, ⟨clock, w.observer, w.log ++ v.added⟩⟩ := by
    rw [heq]
    exact congrArg (Turn.mk · _ _) hending.symm
  have hname (result : EvaluationResult Binary64) (hresult : v.outcome = .ok result) :
      result.approach = name := by
    have hok : (bench.evaluate w name cases options).outcome = .ok result := by
      rw [hevaluate, Visit.ending, hresult]
      rfl
    exact approach_eq_of_evaluate hok
  have halone (other : Bench A) (w' : World Binary64) (found : Registration A)
      (hpolicy : other.policy = bench.policy) (hfound : other.find? name = some found)
      (hsame : found.approach = registration.approach) (hclock' : w'.clock.Steady)
      (hobserver' : w'.observer.NeverFails) :
      (other.evaluate w' name cases options).outcome.map EvaluationResult.untimed =
        v.ending.map EvaluationResult.untimed := by
    obtain ⟨houtcome, -⟩ := evaluate_alone hfind hclock hobserver hpolicy hfound hsame hclock'
      hobserver' cases options
    rwa [hevaluate] at houtcome
  have hsteady : clock.Steady := by
    obtain ⟨-, hleft⟩ := evaluate_alone hfind hclock hobserver rfl hfind rfl hclock hobserver cases
      options
    rwa [hevaluate] at hleft
  refine ⟨v, _, clock, rfl, ?_, hevaluate, hsteady⟩
  exact {
    course := ⟨course, a, w.clock, clock, hrun,
      by rw [hcalls, Course.disposes_eq_true hcourse, if_pos rfl], htold, hending⟩
    approach_eq := hname
    verdicts := Visit.filter_isVerdict_entries htold hending
    alone := halone }

/-! ### Evaluations one after the other -/

/-- After a visit and the report of its failure the other approaches are evaluated, and its result
comes before theirs. -/
theorem evaluateNames_cons (optionsOf : Text → Options) {cases : List TestCase}
    {v : Visit Binary64} {kept : Bench A} {clock : Clock Binary64}
    (hevaluate : bench.evaluate w v.name cases (optionsOf v.name) =
      ⟨v.ending, kept, ⟨clock, w.observer, w.log ++ v.added⟩⟩)
    (hobserver : w.observer.NeverFails) (rest : List Text) :
    let turn := evaluateNames cases optionsOf rest kept ⟨clock, w.observer, w.log ++ v.entries⟩
    evaluateNames cases optionsOf (v.name :: rest) bench w =
      { turn with outcome := turn.outcome.map (v.result?.toList ++ ·) } := by
  rw [evaluateNames, hevaluate]
  obtain ⟨name, added, outcome⟩ := v
  cases outcome with
  | ok result =>
    dsimp only [Visit.ending, Visit.entries, Visit.report, Visit.result?, Except.mapError]
    rw [List.append_nil]
    rfl
  | error failure =>
    dsimp only [Visit.ending, Visit.entries, Visit.report, Visit.result?, Except.mapError]
    rw [World.tell, hobserver, ← List.append_assoc]
    let reported : World Binary64 := ⟨clock, w.observer,
      w.log ++ added ++ [.event (.evaluationFailed name failure.message)]⟩
    change evaluateNames cases optionsOf rest kept reported =
      { evaluateNames cases optionsOf rest kept reported with
        outcome := (evaluateNames cases optionsOf rest kept reported).outcome.map ([] ++ ·) }
    obtain ⟨results, bench', w'⟩ := evaluateNames cases optionsOf rest kept reported
    cases results <;> rfl

/-- Evaluations one after the other are visits one after the other, each of an approach as it was
at first. -/
theorem evaluateNames_visits {optionsOf : Text → Options} (cases : List TestCase)
    {names : List Text} (hnodup : names.Nodup) {bench' : Bench A}
    (hpolicy : bench'.policy = bench.policy)
    (hfind : ∀ name ∈ names, ∃ registration, bench.find? name = some registration ∧
      bench'.find? name = some registration ∧ Approach.NeverInterrupts registration.approach)
    (hclock : w.clock.Steady) (hobserver : w.observer.NeverFails) :
    ∃ visits : List (Visit Binary64), visits.map (·.name) = names ∧
      (evaluateNames cases optionsOf names bench' w).outcome =
        .ok (visits.filterMap (·.result?)) ∧
      (evaluateNames cases optionsOf names bench' w).world.log =
        w.log ++ visits.flatMap (·.entries) ∧
      ∀ v ∈ visits, ∃ registration, bench.find? v.name = some registration ∧
        v.IsIsolated bench.policy registration cases (optionsOf v.name) := by
  -- Every visit changes the approach of its own name only, so the others stay as they were.
  induction names generalizing bench' w with
  | nil => exact ⟨[], rfl, rfl, (List.append_nil _).symm, fun v hv => absurd hv List.not_mem_nil⟩
  | cons name rest ih =>
    obtain ⟨hnew, hrest⟩ := List.nodup_cons.1 hnodup
    obtain ⟨⟨registration, hfirst, hfirst', happroach⟩, hfind'⟩ := List.forall_mem_cons.1 hfind
    obtain ⟨v, kept, clock, rfl, hisolated, hevaluate, hsteady⟩ :=
      evaluate_visit hfirst' happroach hclock hobserver cases (optionsOf name)
    have hkept : ∀ other ∈ rest, ∃ registration, bench.find? other = some registration ∧
        (bench'.keep v.name kept).find? other = some registration ∧
        Approach.NeverInterrupts registration.approach := by
      intro other hother
      rw [find?_keep, if_neg (ne_of_mem_of_not_mem hother hnew)]
      exact hfind' other hother
    have hpolicy' : (bench'.keep v.name kept).policy = bench.policy := hpolicy
    obtain ⟨visits, hnames, houtcome, hlog, hvisits⟩ :=
      ih hrest hpolicy' hkept (w := ⟨clock, w.observer, w.log ++ v.entries⟩) hsteady hobserver
    have hturn := evaluateNames_cons optionsOf hevaluate hobserver rest
    rw [hpolicy] at hisolated
    refine ⟨v :: visits, congrArg (v.name :: ·) hnames, ?_, ?_,
      List.forall_mem_cons.2 ⟨⟨registration, hfirst, hisolated⟩, hvisits⟩⟩
    · rw [hturn, houtcome, List.filterMap_cons]
      cases v.result? <;> rfl
    · rw [hturn, hlog, List.flatMap_cons, List.append_assoc]

/-- **Isolation.** Where no interrupt arrives, the clock is steady and the observer never fails, an
evaluation of all approaches comes to an end. It visits each of them once, in the order of their
names, and has the results of the visits that came to one, in this order. Every visit is isolated,
and its failure is reported after its own entries and before those of the next one. -/
theorem evaluateAll_isolated (hbench : Reachable Binary64 bench)
    (happroaches : ∀ name registration, bench.find? name = some registration →
      Approach.NeverInterrupts registration.approach)
    (hclock : w.clock.Steady) (hobserver : w.observer.NeverFails) (cases : List TestCase)
    (optionsOf : Text → Options) :
    bench.names.Nodup ∧ ∃ visits : List (Visit Binary64), visits.map (·.name) = bench.names ∧
      (bench.evaluateAll w cases optionsOf).outcome = .ok (visits.filterMap (·.result?)) ∧
      (bench.evaluateAll w cases optionsOf).world.log = w.log ++ visits.flatMap (·.entries) ∧
      ∀ v ∈ visits, ∃ registration, bench.find? v.name = some registration ∧
        v.IsIsolated bench.policy registration cases (optionsOf v.name) := by
  refine ⟨hbench.nodup_names, ?_⟩
  have hfind : ∀ name ∈ bench.names, ∃ registration, bench.find? name = some registration ∧
      bench.find? name = some registration ∧ Approach.NeverInterrupts registration.approach := by
    intro name hname
    obtain ⟨registration, hregistration⟩ :=
      Option.ne_none_iff_exists'.1 ((Named.mem_names_iff name bench.registry).1 hname)
    exact ⟨registration, hregistration, hregistration, happroaches name registration hregistration⟩
  exact evaluateNames_visits cases hbench.nodup_names rfl hfind hclock hobserver

/-- An approach that fails at one of its test cases, and one that does not. -/
def mixedBench : Bench Script := forgetfulBench.add obliging

/-- A world with a steady clock. -/
def steadyWorld : World Binary64 :=
  ⟨.ofReadings (Clock.measuredReadings [.ofNat 3, .ofNat 5, .ofNat 6]), .silent, []⟩

/-- The failure of the first approach keeps neither the second one from its result, nor itself from
being reported. -/
theorem evaluateAll_isolated_mixed :
    ∃ visits : List (Visit Binary64), visits.map (·.name) = [forgetful.name, obliging.name] ∧
      (mixedBench.evaluateAll steadyWorld forgetfulCases fun _ => []).outcome =
        .ok (visits.filterMap (·.result?)) ∧
      Named.names (visits.filterMap (·.result?)) = [obliging.name] ∧
      (mixedBench.evaluateAll steadyWorld forgetfulCases fun _ => []).world.log =
        [] ++ visits.flatMap (·.entries) ∧
      ∀ v ∈ visits, (LogEntry.told v.entries).filter (·.isVerdict) = [v.verdict] := by
  have hreachable : Reachable Binary64 mixedBench :=
    .register (.register (.empty .lenient) steadyWorld forgetful) steadyWorld obliging
  have hclock : steadyWorld.clock.Steady :=
    Clock.steady_ofReadings (by decide +kernel) (by decide +kernel)
  obtain ⟨-, visits, hnames, houtcome, hlog, hvisits⟩ := evaluateAll_isolated hreachable
    (fun _ registration _ => registration.approach.neverInterrupts) hclock
    Observer.silent_neverFails forgetfulCases fun _ => []
  have hkeys : (mixedBench.evaluateAll steadyWorld forgetfulCases fun _ => []).outcome.toOption.map
      Named.names = some [obliging.name] := by decide +kernel
  rw [houtcome] at hkeys
  refine ⟨visits, hnames, houtcome, Option.some.inj hkeys, hlog, fun v hv => ?_⟩
  obtain ⟨registration, -, hisolated⟩ := hvisits v hv
  exact hisolated.verdicts

end Bench

end TypeBench
