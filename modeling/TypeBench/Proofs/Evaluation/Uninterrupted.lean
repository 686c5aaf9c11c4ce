import TypeBench.Approach.Scripted
import TypeBench.Proofs.Evaluation.Course

/-!
# Evaluations without interrupts

Where neither the approach nor the clock is ever interrupted, every evaluation disposes of the
approach, once and last.

## Main definitions

* `Approach.NeverInterrupts`, `Clock.NeverInterrupts`: where no interrupt arrives.

## Main results

* `CourseRun.neverInterrupts`: no interrupt ends a course.
* `Bench.evaluate_course`: the calls, the events and the outcome of an evaluation.
-/

namespace TypeBench

/-! ### Approaches and clocks -/

namespace Approach

variable {A : Type} [Approach A]

/-- An approach after a call. -/
def after (a : A) : Call → A
  | .configure options => (configure options a).approach
  | .predict source file => (predict source file a).approach
  | .dispose => (dispose a).approach

/-- Whether an interrupt arrives at a call. -/
def IsInterrupted (a : A) : Call → Prop
  | .configure options => (configure options a).outcome = .error .interrupted
  | .predict source file => (predict source file a).outcome = .error .interrupted
  | .dispose => (dispose a).outcome = .error .interrupted

/-- No interrupt arrives at a call, whatever calls came before. -/
def NeverInterrupts (a : A) : Prop :=
  ∀ (earlier : List Call) (c : Call), ¬IsInterrupted (earlier.foldl after a) c

theorem NeverInterrupts.after {a : A} (h : NeverInterrupts a) (c : Call) :
    NeverInterrupts (after a c) := fun earlier => h (c :: earlier)

end Approach

theorem Script.not_isInterrupted (script : Script) (c : Call) :
    ¬Approach.IsInterrupted script c := by
  have hreply {α : Type} (outcome : Except Failure α) :
      (script.reply outcome).outcome ≠ .error .interrupted := by
    cases outcome <;> exact nofun
  cases c <;> exact hreply _

theorem Script.neverInterrupts (script : Script) : Approach.NeverInterrupts script := by
  intro earlier
  induction earlier with
  | nil => exact script.not_isInterrupted
  | cons c earlier ih =>
    have hsame : Approach.after script c = script := by cases c <;> rfl
    rwa [List.foldl_cons, hsame]

/-- No interrupt arrives at a reading of a clock. -/
def Clock.NeverInterrupts {R : Type} (clock : Clock R) : Prop :=
  ClockReading.interrupt ∉ clock.readings

theorem Clock.NeverInterrupts.read {R : Type} {clock later : Clock R}
    {reading : Except Halt (Mixed R)} (h : clock.NeverInterrupts)
    (hread : clock.read = (reading, later)) :
    reading ≠ .error .interrupted ∧ later.NeverInterrupts := by
  obtain ⟨readings, last⟩ := clock
  rw [Clock.read] at hread
  rcases readings with _ | ⟨_ | _ | _, rest⟩
  · obtain ⟨rfl, rfl⟩ := Prod.mk.inj hread
    exact ⟨nofun, h⟩
  · obtain ⟨rfl, rfl⟩ := Prod.mk.inj hread
    exact ⟨nofun, fun hmem => h (List.mem_cons_of_mem _ hmem)⟩
  · obtain ⟨rfl, rfl⟩ := Prod.mk.inj hread
    exact ⟨nofun, fun hmem => h (List.mem_cons_of_mem _ hmem)⟩
  · exact absurd List.mem_cons_self h

/-! ### Courses -/

theorem CaseTally.score_ne_interrupted {R : Type} [Quantity R] (t : CaseTally R)
    (policy : ScoringPolicy) (name : Text) : t.score policy name ≠ .error .interrupted := by
  rw [CaseTally.score]
  cases t.matching.result policy name t.predictions t.truths t.time with
  | ok result =>
    intro h
    cases h
  | error report =>
    intro h
    cases h

section NeverInterrupts

variable {R A : Type} [Quantity R] [Approach A] {a a' : A} {clock clock' : Clock R}

theorem CompletesCase.neverInterrupts {done : CompletedCase R}
    (h : CompletesCase a clock done a' clock') (ha : Approach.NeverInterrupts a)
    (hclock : clock.NeverInterrupts) :
    Approach.NeverInterrupts a' ∧ clock'.NeverInterrupts := by
  obtain ⟨hstart, -, hstop, -⟩ := h
  exact ⟨ha.after (.predict ..), ((hclock.read hstart).2.read hstop).2⟩

theorem BreaksCase.neverInterrupts {last : BrokenCase} (h : BreaksCase a clock last a' clock')
    (ha : Approach.NeverInterrupts a) (hclock : clock.NeverInterrupts) :
    Approach.NeverInterrupts a' ∧ last.halt ≠ .interrupted := by
  cases h with
  | unstarted hstart =>
    exact ⟨ha, fun e => (hclock.read hstart).1 (congrArg _ e)⟩
  | unpredicted _ hpredict =>
    exact ⟨ha.after (.predict ..), fun e => ha [] (.predict ..) (hpredict.trans (congrArg _ e))⟩
  | unstopped hstart _ hstop =>
    exact ⟨ha.after (.predict ..), fun e => ((hclock.read hstart).2.read hstop).1 (congrArg _ e)⟩
  | untimed =>
    exact ⟨ha.after (.predict ..), nofun⟩

theorem CasesRun.neverInterrupts {cases : List TestCase} {done : List (CompletedCase R)}
    {last? : Option BrokenCase} (h : CasesRun a clock cases done last? a' clock')
    (ha : Approach.NeverInterrupts a) (hclock : clock.NeverInterrupts) :
    Approach.NeverInterrupts a' ∧ ∀ last ∈ last?, last.halt ≠ .interrupted := by
  induction h with
  | nil => exact ⟨ha, fun last hmem => absurd hmem (Option.not_mem_none last)⟩
  | broken h =>
    obtain ⟨ha', hlast⟩ := h.neverInterrupts ha hclock
    exact ⟨ha', fun last hmem => Option.some.inj hmem ▸ hlast⟩
  | completed h _ ih =>
    obtain ⟨ha₁, hclock₁⟩ := h.neverInterrupts ha hclock
    exact ih ha₁ hclock₁

theorem CourseRun.neverInterrupts {policy : ScoringPolicy} {name : Text} {cases : List TestCase}
    {options : Options} {course : Course R}
    (h : CourseRun policy name cases options a clock course a' clock')
    (ha : Approach.NeverInterrupts a) (hclock : clock.NeverInterrupts) :
    Approach.NeverInterrupts a' ∧ course.outcome ≠ .error .interrupted := by
  cases h with
  | unconfigured hconfigure =>
    refine ⟨ha.after (.configure options), fun e => ha [] (.configure options) ?_⟩
    exact hconfigure.trans (congrArg _ (Except.error.inj e))
  | broken _ hcases =>
    obtain ⟨ha', hlast⟩ := hcases.neverInterrupts (ha.after (.configure options)) hclock
    exact ⟨ha', fun e => hlast _ rfl (Except.error.inj e)⟩
  | scored _ hcases =>
    exact ⟨(hcases.neverInterrupts (ha.after (.configure options)) hclock).1,
      CaseTally.score_ne_interrupted _ policy name⟩

end NeverInterrupts

/-! ### Evaluations -/

namespace Bench

variable {R A : Type} [Quantity R] [Approach A] {bench : Bench A} {world : World R} {name : Text}
  {registration : Registration A}

/-- **The course of an evaluation.** Where no interrupt arrives and the observer never fails, an
evaluation sets the approach up, goes through the test cases in order up to one that breaks off, and
disposes of the approach, once and last. It tells of every test case that it began, and the first
failure stands. -/
theorem evaluate_course (hfind : bench.find? name = some registration)
    (hobserver : world.observer.NeverFails) (hclock : world.clock.NeverInterrupts)
    (happroach : Approach.NeverInterrupts registration.approach) (cases : List TestCase)
    (options : Options) :
    ∃ (course : Course R) (a : A) (clock : Clock R) (added : List (LogEntry R)),
      CourseRun bench.policy name cases options registration.approach world.clock course a clock ∧
      course.begun <+: cases ∧
      (bench.evaluate world name cases options).world.log = world.log ++ added ∧
      LogEntry.calls added =
        (course.calls options ++ [Call.dispose]).map (registration.number, ·) ∧
      LogEntry.told added =
        .evaluationStarted name cases.length ::
          (course.events name ++ course.closing name (Approach.dispose a).outcome) ∧
      course.outcome ≠ .error .interrupted ∧
      (Approach.dispose a).outcome ≠ .error .interrupted ∧
      (bench.evaluate world name cases options).outcome =
        course.ending name (Approach.dispose a).outcome := by
  obtain ⟨course, a, a', clock, added, hrun, heq, hcalls, htold⟩ :=
    evaluate_run hfind hobserver cases options
  obtain ⟨ha, houtcome⟩ := hrun.neverInterrupts happroach hclock
  have hdisposes : course.disposes = true := by
    rw [Course.disposes]
    split
    · exact absurd ‹_› houtcome
    · rfl
  refine ⟨course, a, clock, added, hrun, hrun.begun_prefix, by rw [heq], ?_, htold, houtcome,
    ha [] .dispose, by rw [heq]⟩
  rw [hcalls, hdisposes, if_pos rfl]

/-- An approach that knows one test case, and fails at others and when it is disposed of. -/
def forgetful : Script where
  name := Text.ofString "forgetful"
  ready := .ok ()
  predictions _ file :=
    if file = Text.ofString "known" then .ok [] else .error (.raised (Text.ofString "not known"))
  done := .error (.raised (Text.ofString "not disposed of"))

/-- A test case that it knows, and one that it does not. -/
def forgetfulCases : List TestCase :=
  [⟨Text.ofString "known", Text.ofString "first", Text.ofString "const a = 1;", [], none⟩,
    ⟨Text.ofString "other", Text.ofString "second", Text.ofString "const b = 2;", [], none⟩]

/-- A bench with this approach only. -/
def forgetfulBench : Bench Script := (Bench.empty .lenient).add forgetful

/-- A world in which the first test case takes two seconds. -/
def forgetfulWorld : World Binary64 :=
  ⟨.ofReadings [.time (.whole 3), .time (.whole 5)], .silent, []⟩

/-- The course of an evaluation that fails at its second test case and at the disposal. -/
theorem evaluate_course_forgetful :
    ∃ (course : Course Binary64) (a : Script) (clock : Clock Binary64)
      (added : List (LogEntry Binary64)),
      CourseRun .lenient forgetful.name forgetfulCases [] forgetful forgetfulWorld.clock course a
        clock ∧
      course.begun <+: forgetfulCases ∧
      (forgetfulBench.evaluate forgetfulWorld forgetful.name forgetfulCases []).world.log =
        [] ++ added ∧
      LogEntry.calls added = (course.calls [] ++ [Call.dispose]).map (0, ·) ∧
      LogEntry.told added =
        .evaluationStarted forgetful.name 2 ::
          (course.events forgetful.name ++
            course.closing forgetful.name (Approach.dispose a).outcome) ∧
      course.outcome ≠ .error .interrupted ∧
      (Approach.dispose a).outcome ≠ .error .interrupted ∧
      (forgetfulBench.evaluate forgetfulWorld forgetful.name forgetfulCases []).outcome =
        course.ending forgetful.name (Approach.dispose a).outcome := by
  have hfind : forgetfulBench.find? forgetful.name = some ⟨0, forgetful⟩ := rfl
  have hclock : forgetfulWorld.clock.NeverInterrupts := by
    simp [Clock.NeverInterrupts, forgetfulWorld, Clock.ofReadings]
  exact evaluate_course hfind Observer.silent_neverFails hclock forgetful.neverInterrupts
    forgetfulCases []

end Bench

end TypeBench
