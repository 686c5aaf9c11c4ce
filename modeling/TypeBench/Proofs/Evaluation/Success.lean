import TypeBench.Proofs.Evaluation.Course
import TypeBench.Proofs.Score.Acceptance

/-!
# Evaluations with a result

An evaluation that comes to a result has completed every test case, and the result is the score of
what it collected. This holds whatever the observer does: it may end an evaluation early, but has no
part in a result.

## Main definitions

* `CaseTally.scores`: the scores of a tally.

## Main results

* `CaseTally.scores_of_score`, `CaseTally.exists_score_iff`: a score is accepted as it is, if it
  keeps its bounds.
* `CourseRun.score_of_ok`: the result of a course is the score of its test cases.
* `Session.runCases_ok`: a tally collects test cases that were all completed.
* `Session.scored_ok`, `Session.evaluate_ok`: a result is that of a course.
* `Bench.evaluate_ok`, `Bench.evaluate_scored`: the same of the evaluation of a registered approach.
-/

namespace TypeBench

/-- What is known of the result is known of one that is there. -/
theorem exists_of_map_eq_ok {ε α β : Type} {f : α → β} {outcome : Except ε α} {b : β}
    (h : outcome.map f = .ok b) : ∃ a, outcome = .ok a ∧ f a = b := by
  cases outcome with
  | error e => cases h
  | ok a => exact ⟨a, rfl, Except.ok.inj h⟩

/-- A failure does not depend on what would have been made of the result. -/
theorem eq_error_of_map_eq_error {ε α β : Type} {f : α → β} {outcome : Except ε α} {e : ε}
    (h : outcome.map f = .error e) : outcome = .error e := by
  cases outcome with
  | error e' => exact congrArg Except.error (Except.error.inj h)
  | ok a => cases h

/-- A result does not depend on what would have been made of a failure. -/
theorem eq_ok_of_mapError_eq_ok {ε ε' α : Type} {f : ε → ε'} {outcome : Except ε α} {a : α}
    (h : outcome.mapError f = .ok a) : outcome = .ok a := by
  cases outcome with
  | error e => cases h
  | ok a' => exact congrArg Except.ok (Except.ok.inj h)

/-- What is made of a result does not touch a failure. -/
theorem mapError_map {ε ε' α β : Type} (f : ε → ε') (g : α → β) (outcome : Except ε α) :
    (outcome.map g).mapError f = (outcome.mapError f).map g := by
  cases outcome <;> rfl

/-- A run that did not break off has completed all test cases. -/
theorem CasesRun.cases_eq {R A : Type} [Quantity R] [Approach A] {a a' : A} {clock clock' : Clock R}
    {cases : List TestCase} {done : List (CompletedCase R)} {last? : Option BrokenCase}
    (h : CasesRun a clock cases done last? a' clock') (hlast : last? = none) :
    done.map (·.case) = cases := by
  induction h with
  | nil => rfl
  | broken => exact absurd hlast (Option.some_ne_none _)
  | completed _ _ ih => rw [List.map_cons, ih hlast]

namespace CaseTally

variable {R : Type} [Quantity R] {t : CaseTally R} {policy : ScoringPolicy} {name : Text}

/-- The scores of a tally, before their bounds are looked at. -/
def scores (t : CaseTally R) (policy : ScoringPolicy) (name : Text) : EvaluationResult R :=
  t.matching.scores policy name t.predictions t.truths t.time

theorem score_eq (t : CaseTally R) (policy : ScoringPolicy) (name : Text) :
    t.score policy name =
      (t.scores policy name).accept.mapError fun report => .failed (.report report) := rfl

/-- A score is accepted as it is. -/
theorem scores_of_score {r : EvaluationResult R} (h : t.score policy name = .ok r) :
    r = t.scores policy name :=
  EvaluationResult.eq_of_accept (eq_ok_of_mapError_eq_ok h)

/-- Scores that keep their bounds are accepted. -/
theorem score_of_keepsBounds (h : (t.scores policy name).KeepsBounds) :
    t.score policy name = .ok (t.scores policy name) := by
  rw [score_eq, EvaluationResult.accept_of_keepsBounds h]
  rfl

/-- Scores are accepted if they keep their bounds, and only then. -/
theorem exists_score_iff :
    (∃ r, t.score policy name = .ok r) ↔ (t.scores policy name).KeepsBounds := by
  refine ⟨fun ⟨r, h⟩ => ?_, fun h => ⟨_, score_of_keepsBounds h⟩⟩
  exact EvaluationResult.keepsBounds_of_accept (eq_ok_of_mapError_eq_ok h)

end CaseTally

/-- A course to a result is a run over the test cases, and the result is the score of what it
collected. -/
theorem CourseRun.run_of_ok {R A : Type} [Quantity R] [Approach A] {policy : ScoringPolicy}
    {name : Text} {cases : List TestCase} {options : Options} {a a' : A} {clock clock' : Clock R}
    {done : List (CompletedCase R)} {result : EvaluationResult R}
    (h : CourseRun policy name cases options a clock ⟨done, none, .ok result⟩ a' clock') :
    CasesRun (Approach.configure options a).approach clock cases done none a' clock' ∧
      (CaseTally.empty.addAll done).score policy name = .ok result := by
  generalize hcourse : (⟨done, none, .ok result⟩ : Course R) = course at h
  cases h with
  | unconfigured =>
    obtain ⟨-, -, hresult⟩ := Course.mk.inj hcourse
    cases hresult
  | broken =>
    obtain ⟨-, hnone, -⟩ := Course.mk.inj hcourse
    cases hnone
  | scored _ hrun =>
    obtain ⟨rfl, -, hresult⟩ := Course.mk.inj hcourse
    exact ⟨hrun, hresult.symm⟩

/-- A course to a result has completed all test cases. -/
theorem CourseRun.score_of_ok {R A : Type} [Quantity R] [Approach A] {policy : ScoringPolicy}
    {name : Text} {cases : List TestCase} {options : Options} {a a' : A} {clock clock' : Clock R}
    {done : List (CompletedCase R)} {result : EvaluationResult R}
    (h : CourseRun policy name cases options a clock ⟨done, none, .ok result⟩ a' clock') :
    done.map (·.case) = cases ∧ (CaseTally.empty.addAll done).score policy name = .ok result :=
  ⟨h.run_of_ok.1.cases_eq rfl, h.run_of_ok.2⟩

namespace Session

variable {R A α β : Type}

/-- A computation in two steps succeeds if both do. -/
theorem exists_of_bind_ok {x : Action R A α} {f : α → Action R A β} {s s' : Session R A} {b : β}
    (h : (x >>= f) s = .ok b s') : ∃ a s₁, x s = .ok a s₁ ∧ f a s₁ = .ok b s' := by
  cases hx : x s with
  | ok a s₁ => exact ⟨a, s₁, rfl, (bind_of_ok hx f).symm.trans h⟩
  | error halt s₁ =>
    rw [bind_of_error hx f] at h
    cases h

theorem eq_record_of_tell_ok {e : EvaluationEvent R} {s s' : Session R A} {u : Unit}
    (h : tell e s = .ok u s') : s' = s.record e := by
  rw [tell] at h
  cases hobserver : s.observer (LogEntry.told s.log) e with
  | ok _ =>
    rw [hobserver] at h
    exact (EStateM.Result.ok.inj h).2.symm
  | error failure =>
    rw [hobserver] at h
    cases h

variable [Quantity R] [Approach A]

/-- Predictions for a test case complete it. -/
theorem predict_ok {case : TestCase} {s s' : Session R A} {predictions : List TypePrediction}
    {time : R} (h : predict case s = .ok (predictions, time) s') :
    CompletesCase s.registration.approach s.clock ⟨case, predictions, time⟩
      s'.registration.approach s'.clock := by
  rcases predict_run case s with ⟨done, a, clock, added, hrun, rfl, heq, -, -⟩ |
    ⟨last, a, clock, added, -, -, heq, -, -⟩
  · rw [heq] at h
    obtain ⟨hvalue, rfl⟩ := EStateM.Result.ok.inj h
    obtain ⟨rfl, rfl⟩ := Prod.mk.inj hvalue
    exact hrun
  · rw [heq] at h
    cases h

/-- A tally collects test cases that were all completed. -/
theorem runCases_ok {name : Text} {cases : List TestCase} {t t' : CaseTally R}
    {s s' : Session R A} (h : runCases name cases t s = .ok t' s') :
    ∃ done, CasesRun s.registration.approach s.clock cases done none
      s'.registration.approach s'.clock ∧ t' = t.addAll done := by
  induction cases generalizing s t with
  | nil =>
    obtain ⟨rfl, rfl⟩ := EStateM.Result.ok.inj h
    exact ⟨[], .nil _ _, rfl⟩
  | cons case rest ih =>
    obtain ⟨_, s₁, hstart, h⟩ := exists_of_bind_ok h
    obtain ⟨⟨predictions, time⟩, s₂, hpredict, h⟩ := exists_of_bind_ok h
    obtain ⟨_, s₃, hcomplete, h⟩ := exists_of_bind_ok h
    obtain rfl := eq_record_of_tell_ok hstart
    obtain rfl := eq_record_of_tell_ok hcomplete
    obtain ⟨done, hrun, rfl⟩ := ih h
    exact ⟨⟨case, predictions, time⟩ :: done, .completed (predict_ok hpredict) hrun, rfl⟩

/-- A result is that of a course without a break. -/
theorem scored_ok {policy : ScoringPolicy} {name : Text} {cases : List TestCase}
    {options : Options} {s s' : Session R A} {result : EvaluationResult R}
    (h : scored policy name cases options s = .ok result s') :
    ∃ done, CourseRun policy name cases options s.registration.approach s.clock
      ⟨done, none, .ok result⟩ s'.registration.approach s'.clock := by
  obtain ⟨_, s₁, hconfigure, h⟩ := exists_of_bind_ok h
  obtain ⟨t, s₂, hcases, h⟩ := exists_of_bind_ok h
  obtain ⟨hready, rfl⟩ :
      (Approach.configure options s.registration.approach).outcome = .ok () ∧
        s₁ = s.afterCall (.configure options)
          (Approach.configure options s.registration.approach) := by
    cases houtcome : (Approach.configure options s.registration.approach).outcome with
    | ok _ =>
      rw [configure, call_of_ok houtcome] at hconfigure
      exact ⟨rfl, (EStateM.Result.ok.inj hconfigure).2.symm⟩
    | error halt =>
      rw [configure, call_of_error houtcome] at hconfigure
      cases hconfigure
  obtain ⟨done, hrun, rfl⟩ := runCases_ok hcases
  have hscore : (CaseTally.empty.addAll done).score policy name = .ok result ∧ s₂ = s' := by
    rw [CaseTally.score]
    generalize CaseTally.empty.addAll done = t at h
    cases hresult : t.matching.result policy name t.predictions t.truths t.time with
    | ok result' =>
      rw [hresult] at h
      obtain ⟨rfl, rfl⟩ := EStateM.Result.ok.inj h
      exact ⟨rfl, rfl⟩
    | error report =>
      rw [hresult] at h
      cases h
  obtain ⟨hscore, rfl⟩ := hscore
  exact ⟨done, hscore ▸ .scored hready hrun⟩

/-- The disposal of the approach does not touch its result. -/
theorem scoredAndDisposed_ok {policy : ScoringPolicy} {name : Text} {cases : List TestCase}
    {options : Options} {s s' : Session R A} {result : EvaluationResult R}
    (h : scoredAndDisposed policy name cases options s = .ok result s') :
    ∃ s₁, scored policy name cases options s = .ok result s₁ := by
  rw [scoredAndDisposed] at h
  rcases hscored : scored policy name cases options s with ⟨result', s₁⟩ | ⟨failure | _, s₁⟩
  · rw [hscored] at h
    refine ⟨s₁, ?_⟩
    dsimp only [complete] at h
    rcases hdispose : dispose s₁ with ⟨_, s₂⟩ | ⟨failure | _, s₂⟩
    · rw [hdispose] at h
      obtain ⟨_, s₃, -, h⟩ := exists_of_bind_ok h
      obtain ⟨rfl, -⟩ := EStateM.Result.ok.inj h
      rfl
    · rw [hdispose] at h
      cases h
    · rw [hdispose] at h
      cases h
  · rw [hscored] at h
    dsimp only [disposeAfter] at h
    rcases hdispose : dispose s₁ with ⟨_, s₂⟩ | ⟨second | _, s₂⟩
    · rw [hdispose] at h
      cases h
    · rw [hdispose] at h
      dsimp only at h
      split at h <;> cases h
    · rw [hdispose] at h
      cases h
  · rw [hscored] at h
    cases h

/-- An evaluation that comes to a result takes a course to it. -/
theorem evaluate_ok {policy : ScoringPolicy} {name : Text} {cases : List TestCase}
    {options : Options} {s s' : Session R A} {result : EvaluationResult R}
    (h : evaluate policy name cases options s = .ok result s') :
    ∃ done a clock, CourseRun policy name cases options s.registration.approach s.clock
      ⟨done, none, .ok result⟩ a clock := by
  obtain ⟨_, s₁, hstart, h⟩ := exists_of_bind_ok h
  obtain rfl := eq_record_of_tell_ok hstart
  obtain ⟨s₂, hscored⟩ := scoredAndDisposed_ok h
  obtain ⟨done, hrun⟩ := scored_ok hscored
  exact ⟨done, _, _, hrun⟩

end Session

namespace Bench

variable {R A : Type} [Quantity R] [Approach A] {bench : Bench A} {world : World R} {name : Text}

/-- An evaluation that comes to a result is one of a registered approach, and takes a course to it.
-/
theorem evaluate_ok {cases : List TestCase} {options : Options} {result : EvaluationResult R}
    (h : (bench.evaluate world name cases options).outcome = .ok result) :
    ∃ registration done a clock, bench.find? name = some registration ∧
      CourseRun bench.policy name cases options registration.approach world.clock
        ⟨done, none, .ok result⟩ a clock := by
  rw [evaluate] at h
  cases hfind : bench.find? name with
  | none =>
    rw [hfind] at h
    cases h
  | some registration =>
    rw [hfind] at h
    dsimp only at h
    cases hrun : Session.evaluate bench.policy name cases options
        ⟨registration, world.clock, world.observer, world.log⟩ with
    | ok result' s =>
      rw [hrun] at h
      obtain rfl := Except.ok.inj h
      obtain ⟨done, a, clock, hcourse⟩ := Session.evaluate_ok hrun
      exact ⟨registration, done, a, clock, rfl, hcourse⟩
    | error halt s =>
      rw [hrun] at h
      cases h

/-- The result of an evaluation is made of the scores of all its test cases. -/
theorem evaluate_scored {cases : List TestCase} {options : Options} {result : EvaluationResult R}
    (h : (bench.evaluate world name cases options).outcome = .ok result) :
    ∃ registration done a clock, bench.find? name = some registration ∧
      CourseRun bench.policy name cases options registration.approach world.clock
        ⟨done, none, .ok result⟩ a clock ∧
      done.map (·.case) = cases ∧
      result = (CaseTally.empty.addAll done).scores bench.policy name := by
  obtain ⟨registration, done, a, clock, hfind, hcourse⟩ := evaluate_ok h
  obtain ⟨hcases, hscore⟩ := hcourse.score_of_ok
  exact ⟨registration, done, a, clock, hfind, hcourse, hcases, CaseTally.scores_of_score hscore⟩

end Bench

end TypeBench
