import TypeBench.Proofs.Config.Loaded
import TypeBench.Proofs.Evaluation.Batch
import TypeBench.Proofs.Evaluation.Isolation
import TypeBench.Proofs.Evaluation.Record
import TypeBench.Proofs.Evaluation.Reproducibility
import TypeBench.Proofs.Number.Rounding
import TypeBench.Proofs.Score.Bounds

/-!
# Names of approaches

A configuration takes any text for the name of an approach, and so does a bench. A result takes only
proper ones, which are not empty and have no lone surrogates. So an approach that does all that it
is asked to is reported as failed if its name is not proper, and for nothing else: on a steady clock
the times of its test cases add up to a time that is not negative, and its accuracy is between zero
and one as long as the entries of the ground truth can be counted in numbers of limited range.

## Main definitions

* `Text.IsProper`: the names that a result takes.
* `EvaluationResult.nameReport`: what is said of a result with another name.
* `Approach.Succeeds`: calls one after the other that all succeed.
* `Call.whole`: the calls of an evaluation that nothing ends early.
* `LogEntry.failures`: the approaches that are reported as failed, in a record.
* `World.Later`: a world after evaluations that do not report an approach as failed.

## Main results

* `CaseTally.score_of_isProper`, `CaseTally.score_of_not_isProper`: the name alone decides whether
  test cases are scored.
* `CourseRun.of_succeeds`: calls that succeed lead to the score of all test cases.
* `Bench.evaluateNames_append`: evaluations of some names, and then of others.
* `Bench.evaluateNames_of_succeeds`: one approach among others, if all its calls succeed.
* `Bench.evaluateAll_configured`: an approach under a name that a configuration accepts.
-/

namespace TypeBench

/-! ### Results and their names -/

/-- A text that a result takes for a name. -/
def Text.IsProper (name : Text) : Prop := name ≠ [] ∧ name.hasSurrogate = false

namespace EvaluationResult

/-- What is said of a result whose name is not proper. -/
def nameReport (name : Text) : Report :=
  ⟨recordName, [⟨[.key "approach_name"], if name.hasSurrogate then .unicode else .nonEmpty⟩]⟩

variable {R : Type} [Quantity R] {r : EvaluationResult R}

/-- A result that keeps its other bounds is refused for its name if that is not proper. -/
theorem accept_of_not_isProper (hone : Quantity.le r.accuracy ((1 : Nat) : R) = true)
    (hzero : Quantity.le Quantity.zero r.accuracy = true)
    (htime : Quantity.le Quantity.zero r.time = true) (hname : ¬r.approach.IsProper) :
    r.accept = .error (nameReport r.approach) := by
  have happroach : Field.nonEmptyText (.text r.approach) =
      .broken (if r.approach.hasSurrogate then .unicode else .nonEmpty) := by
    rw [Field.nonEmptyText, Field.text, Checked.andThen]
    split
    · rfl
    · next hsurrogate =>
      have hempty : r.approach = [] :=
        Classical.not_not.1 fun hne => hname ⟨hne, eq_false_of_ne_true hsurrogate⟩
      rw [if_pos hempty]
  have haccuracy : Field.inUnitInterval r.accuracy = .valid r.accuracy := by
    rw [Field.inUnitInterval, hone, hzero]
    rfl
  rw [accept, bounded, happroach, haccuracy, notNegative_of_zero_le htime]
  rfl

end EvaluationResult

/-! ### Scores of test cases -/

theorem MatchSet.Accounts.isFinite_correctCount {m : MatchSet} {predictions : List TypePrediction}
    {truths : List GroundTruth} (h : m.Accounts predictions truths)
    (hcount : (truths.length : Binary64).isFinite = true) :
    (m.correctCount : Binary64).isFinite = true := by
  refine Binary64.isFinite_natCast_of_le (m.correctCount_le_found.trans ?_) hcount
  rw [h.balances.truths_length]
  exact Nat.le_add_right _ _

namespace CaseTally

/-- Times that are not negative add up to a time that is not negative. -/
theorem zero_le_time_addAll {t : CaseTally Binary64} {done : List (CompletedCase Binary64)}
    (ht : Quantity.le Quantity.zero t.time = true)
    (hdone : ∀ c ∈ done, Quantity.le Quantity.zero c.time = true) :
    Quantity.le Quantity.zero (t.addAll done).time = true := by
  induction done generalizing t with
  | nil => exact ht
  | cons first rest ih =>
    obtain ⟨hfirst, hrest⟩ := List.forall_mem_cons.1 hdone
    exact ih (t := t.add first.case first.predictions first.time)
      (Binary64.zero_le_add ht hfirst) hrest

variable {done : List (CompletedCase Binary64)} (policy : ScoringPolicy) (name : Text)
  (hdone : ∀ c ∈ done, Quantity.le Quantity.zero c.time = true)
  (hcount : ((done.flatMap (·.case.truths)).length : Binary64).isFinite = true)

include hdone hcount

/-- The accuracy and the time of scores keep their bounds if no test case took a negative time. -/
theorem bounds_addAll :
    let r := (CaseTally.empty.addAll done).scores policy name
    Quantity.le r.accuracy ((1 : Nat) : Binary64) = true ∧
      Quantity.le Quantity.zero r.accuracy = true ∧ Quantity.le Quantity.zero r.time = true := by
  have hcorrect := (accounts_addAll done).isFinite_correctCount hcount
  have hle := fun m : MatchSet => m.correctCount_le_found.trans (m.found_le_scoredCount policy)
  exact ⟨Binary64.ratio_le_one hcorrect (hle _), Binary64.zero_le_ratio hcorrect,
    zero_le_time_addAll (by decide +kernel) hdone⟩

/-- Test cases under a proper name are scored. -/
theorem score_of_isProper (hname : name.IsProper) :
    (CaseTally.empty.addAll done).score policy name =
      .ok ((CaseTally.empty.addAll done).scores policy name) := by
  obtain ⟨hone, hzero, htime⟩ := bounds_addAll policy name hdone hcount
  exact score_of_keepsBounds ⟨hname.2, hname.1, hone, hzero, htime⟩

/-- Under any other name they are not, for the name alone. -/
theorem score_of_not_isProper (hname : ¬name.IsProper) :
    (CaseTally.empty.addAll done).score policy name =
      .error (.failed (.report (EvaluationResult.nameReport name))) := by
  obtain ⟨hone, hzero, htime⟩ := bounds_addAll policy name hdone hcount
  rw [score_eq, EvaluationResult.accept_of_not_isProper hone hzero htime hname]
  rfl

end CaseTally

/-! ### Calls that succeed -/

/-- Calls one after the other that all succeed. -/
def Approach.Succeeds {A : Type} [Approach A] (a : A) : List Call → Prop
  | [] => True
  | c :: rest => (∀ halt, ¬Approach.Halts halt a c) ∧ Succeeds (Approach.after a c) rest

/-- All calls of a script without failures succeed. -/
theorem Script.succeeds {script : Script} (hready : script.ready = .ok ())
    (hpredictions : ∀ source file, ∃ found, script.predictions source file = .ok found)
    (hdone : script.done = .ok ()) (calls : List Call) : Approach.Succeeds script calls := by
  have hreply {α : Type} {outcome : Except Failure α} {found : α} (h : outcome = .ok found)
      (halt : Halt) : (script.reply outcome).outcome ≠ .error halt := by
    subst h
    exact nofun
  induction calls with
  | nil => trivial
  | cons c rest ih =>
    cases c with
    | configure => exact ⟨hreply hready, ih⟩
    | predict source file =>
      obtain ⟨found, hfound⟩ := hpredictions source file
      exact ⟨hreply hfound, ih⟩
    | dispose => exact ⟨hreply hdone, ih⟩

/-- The calls of an evaluation that nothing ends early. -/
def Call.whole (options : Options) (cases : List TestCase) : List Call :=
  .configure options ::
    ((cases.map fun case => .predict case.source case.id) ++ [.dispose])

section Run

variable {A : Type} [Approach A] {a a' : A}

theorem Approach.dispose_of_succeeds (h : Approach.Succeeds a [.dispose]) :
    (Approach.dispose a).outcome = .ok () := by
  cases houtcome : (Approach.dispose a).outcome with
  | ok => rfl
  | error halt => exact absurd houtcome (h.1 halt)

variable {R : Type} [Quantity R] {clock clock' : Clock R}

theorem CompletesCase.zero_le_time {done : CompletedCase R}
    (h : CompletesCase a clock done a' clock') (hclock : clock.Steady) :
    Quantity.le Quantity.zero done.time = true := by
  obtain ⟨started, stopped, time, clock₁, clock₂, hstart, hstop, htime, hle, -⟩ :=
    hclock.read_twice
  obtain ⟨hstarted, -, hstopped, htaken⟩ := h
  obtain ⟨hreading, rfl⟩ := Prod.mk.inj (hstart.symm.trans hstarted)
  obtain ⟨hreading', -⟩ := Prod.mk.inj (hstop.symm.trans hstopped)
  obtain rfl := Except.ok.inj hreading
  obtain rfl := Except.ok.inj hreading'
  obtain rfl := Except.ok.inj (htime.symm.trans htaken)
  exact hle

/-- No test case takes a negative time on a steady clock. -/
theorem CasesRun.zero_le_time {cases : List TestCase} {done : List (CompletedCase R)}
    {last? : Option BrokenCase} (h : CasesRun a clock cases done last? a' clock')
    (hclock : clock.Steady) : ∀ c ∈ done, Quantity.le Quantity.zero c.time = true := by
  induction h with
  | nil => exact List.forall_mem_nil _
  | broken => exact List.forall_mem_nil _
  | completed hfirst _ ih =>
    exact List.forall_mem_cons.2 ⟨hfirst.zero_le_time hclock, ih (hfirst.after_eq hclock).2⟩

/-- A run whose calls succeed does not break off on a steady clock, and leaves the calls after it to
succeed. -/
theorem CasesRun.of_succeeds {cases : List TestCase} {done : List (CompletedCase R)}
    {last? : Option BrokenCase} {later : List Call}
    (h : CasesRun a clock cases done last? a' clock') (hclock : clock.Steady)
    (hcalls : Approach.Succeeds a
      ((cases.map fun case => .predict case.source case.id) ++ later)) :
    last? = none ∧ Approach.Succeeds a' later := by
  induction h with
  | nil => exact ⟨rfl, hcalls⟩
  | broken hbreaks => exact absurd (hbreaks.halts hclock).2 (hcalls.1 _)
  | completed hfirst _ ih =>
    obtain ⟨rfl, hsteady⟩ := hfirst.after_eq hclock
    exact ih hsteady hcalls.2

end Run

/-- Where the approach can be disposed of, the outcome of the course stands. -/
theorem Course.ending_ok {R : Type} (course : Course R) (name : Text) :
    course.ending name (.ok ()) = course.outcome := by
  obtain ⟨done, last?, scored⟩ := course
  rcases scored with (failure | _) | result <;> rfl

/-- A course whose calls succeed comes to the score of all test cases, and the approach can be
disposed of. -/
theorem CourseRun.of_succeeds {R A : Type} [Quantity R] [Approach A] {a a' : A}
    {clock clock' : Clock R} {policy : ScoringPolicy} {name : Text} {cases : List TestCase}
    {options : Options} {course : Course R}
    (h : CourseRun policy name cases options a clock course a' clock') (hclock : clock.Steady)
    (hcalls : Approach.Succeeds a (Call.whole options cases)) :
    (Approach.dispose a').outcome = .ok () ∧ ∃ done : List (CompletedCase R),
      done.map (·.case) = cases ∧ (∀ c ∈ done, Quantity.le Quantity.zero c.time = true) ∧
      course = ⟨done, none, (CaseTally.empty.addAll done).score policy name⟩ := by
  obtain ⟨hready, hlater⟩ := hcalls
  cases h with
  | unconfigured hconfigure => exact absurd hconfigure (hready _)
  | broken _ hcases => cases (hcases.of_succeeds hclock hlater).1
  | @scored done _ _ _ hcases =>
    exact ⟨Approach.dispose_of_succeeds (hcases.of_succeeds hclock hlater).2, done,
      hcases.cases_eq rfl, hcases.zero_le_time hclock, rfl⟩

/-! ### Reports of failures -/

namespace EvaluationEvent

variable {R : Type}

/-- The approach whose failure an event reports. -/
def failed? : EvaluationEvent R → Option Text
  | .evaluationFailed name _ => some name
  | _ => none

/-- What is told of an approach that is refused a result for its name. -/
def refusal (name : Text) : EvaluationEvent R :=
  .evaluationFailed name (Failure.report (EvaluationResult.nameReport name)).message

end EvaluationEvent

namespace LogEntry

variable {R : Type}

/-- The approaches that are reported as failed, in a record. -/
def failures (log : List (LogEntry R)) : List Text := (told log).filterMap EvaluationEvent.failed?

@[simp] theorem failures_append (log more : List (LogEntry R)) :
    failures (log ++ more) = failures log ++ failures more := by
  rw [failures, told_append, List.filterMap_append]
  rfl

end LogEntry

theorem CasesRun.filterMap_failed?_events {R : Type} (name : Text) (done : List (CompletedCase R))
    (last? : Option BrokenCase) :
    (events name done last?).filterMap EvaluationEvent.failed? = [] := by
  induction done with
  | nil => cases last? <;> rfl
  | cons first done ih =>
    rw [events_cons]
    exact ih

theorem Course.filterMap_failed?_closing {R : Type} (course : Course R) (name : Text)
    (disposal : Except Halt Unit) :
    (course.closing name disposal).filterMap EvaluationEvent.failed? = [] := by
  obtain ⟨done, last?, scored⟩ := course
  rcases scored with (failure | _) | result <;> rcases disposal with (second | _) | _ <;> rfl

/-- A world after evaluations that do not report an approach as failed: the clock is steady, the
observer is the same, and the record has only become longer. -/
structure World.Later (name : Text) (w w' : World Binary64) : Prop where
  steady : w'.clock.Steady
  observer_eq : w'.observer = w.observer
  log : ∃ added, w'.log = w.log ++ added ∧ name ∉ LogEntry.failures added

namespace World.Later

variable {name : Text} {w w' w'' : World Binary64}

theorem refl (name : Text) (h : w.clock.Steady) : w.Later name w where
  steady := h
  observer_eq := rfl
  log := ⟨[], (List.append_nil _).symm, List.not_mem_nil⟩

theorem trans (h : w.Later name w') (h' : w'.Later name w'') : w.Later name w'' where
  steady := h'.steady
  observer_eq := h'.observer_eq.trans h.observer_eq
  log := by
    obtain ⟨added, hlog, hadded⟩ := h.log
    obtain ⟨more, hmore, hnew⟩ := h'.log
    refine ⟨added ++ more, by rw [hmore, hlog, List.append_assoc], ?_⟩
    rw [LogEntry.failures_append]
    exact List.not_mem_append hadded hnew

/-- The failure of another approach may be reported. -/
theorem record (h : w.Later name w') {other : Text} (hother : other ≠ name) (reason : Text) :
    w.Later name (w'.record (.evaluationFailed other reason)) := by
  refine h.trans ⟨h.steady, rfl, _, rfl, fun hmem => hother ?_⟩
  exact (List.mem_singleton.1 hmem).symm

theorem neverFails (h : w.Later name w') (hobserver : w.observer.NeverFails) :
    w'.observer.NeverFails := h.observer_eq ▸ hobserver

end World.Later

/-! ### Single evaluations -/

namespace Bench

variable {A : Type} [Approach A] {bench : Bench A} {w : World Binary64} {name : Text}
  {registration : Registration A} {cases : List TestCase} {options : Options}

section Single

variable (hclock : w.clock.Steady) (hobserver : w.observer.NeverFails)

include hclock hobserver

/-- An evaluation reports no approach as failed itself. -/
theorem evaluate_later (bench : Bench A) (name other : Text) (cases : List TestCase)
    (options : Options) : w.Later name (bench.evaluate w other cases options).world := by
  cases hfind : bench.find? other with
  | none =>
    rw [evaluate_of_not_registered hfind]
    exact .refl name hclock
  | some registration =>
    obtain ⟨-, hsteady⟩ := evaluate_alone hfind hclock hobserver rfl hfind rfl hclock hobserver
      cases options
    obtain ⟨course, a, a', clock, added, -, heq, -, htold⟩ :=
      evaluate_run hfind hobserver cases options
    rw [heq] at hsteady ⊢
    have hnone : LogEntry.failures added = [] := by
      rw [LogEntry.failures, htold, List.filterMap_cons_none rfl, List.filterMap_append,
        Course.filterMap_failed?_closing]
      exact (List.append_nil _).trans (CasesRun.filterMap_failed?_events ..)
    exact ⟨hsteady, rfl, added, rfl, hnone ▸ List.not_mem_nil⟩

variable (hfind : bench.find? name = some registration)
  (hcount : ((cases.flatMap (·.truths)).length : Binary64).isFinite = true)
  (hcalls : Approach.Succeeds registration.approach (Call.whole options cases))

include hfind hcount hcalls

/-- An evaluation in which all calls succeed comes to a result under a proper name, and under any
other name it is refused one for the name. -/
theorem evaluate_of_succeeds :
    (name.IsProper → ∃ r, (bench.evaluate w name cases options).outcome = .ok r) ∧
      (¬name.IsProper → (bench.evaluate w name cases options).outcome =
        .error (.failed (.report (EvaluationResult.nameReport name)))) := by
  obtain ⟨course, a, _, clock, _, hcourse, heq, -, -⟩ := evaluate_run hfind hobserver cases options
  obtain ⟨hdispose, done, hcases, hdone, rfl⟩ := hcourse.of_succeeds hclock hcalls
  rw [← hcases, List.flatMap_map] at hcount
  have houtcome : (bench.evaluate w name cases options).outcome =
      (CaseTally.empty.addAll done).score bench.policy name := by
    rw [heq, hdispose, Course.ending_ok]
  rw [houtcome]
  exact ⟨fun hname => ⟨_, CaseTally.score_of_isProper bench.policy name hdone hcount hname⟩,
    CaseTally.score_of_not_isProper bench.policy name hdone hcount⟩

end Single

/-! ### Evaluations one after the other -/

/-- Evaluations of some names and then of others. -/
theorem evaluateNames_append {R : Type} [Quantity R] (optionsOf : Text → Options)
    (names more : List Text) (bench : Bench A) (w : World R) :
    evaluateNames cases optionsOf (names ++ more) bench w =
      match evaluateNames cases optionsOf names bench w with
      | ⟨.ok results, bench, w⟩ =>
        let turn := evaluateNames cases optionsOf more bench w
        { turn with outcome := turn.outcome.map (results ++ ·) }
      | ⟨.error halt, bench, w⟩ => ⟨.error halt, bench, w⟩ := by
  induction names generalizing bench w with
  | nil =>
    rw [List.nil_append]
    dsimp only [evaluateNames]
    obtain ⟨outcome | outcome, bench', w'⟩ := evaluateNames cases optionsOf more bench w <;> rfl
  | cons name rest ih =>
    rw [List.cons_append, evaluateNames, evaluateNames]
    obtain ⟨(failure | _) | result, bench', w'⟩ := bench.evaluate w name cases (optionsOf name)
    · dsimp only
      cases w'.tell (.evaluationFailed name failure.message) with
      | ok => exact ih ..
      | error => rfl
    · rfl
    · dsimp only
      rw [ih]
      obtain ⟨halt | results, bench'', w''⟩ := evaluateNames cases optionsOf rest bench' w'
      · rfl
      · dsimp only [Except.map]
        obtain ⟨outcome | outcome, _, _⟩ := evaluateNames cases optionsOf more bench'' w'' <;> rfl

section Several

variable {optionsOf : Text → Options} {names : List Text} (hclock : w.clock.Steady)
  (hobserver : w.observer.NeverFails)

include hclock hobserver

/-- Evaluations of other approaches leave an approach as it is, and do not report it as failed. -/
theorem evaluateNames_later (optionsOf : Text → Options) (hname : name ∉ names) (bench : Bench A)
    (cases : List TestCase) :
    let turn := evaluateNames cases optionsOf names bench w
    turn.bench.policy = bench.policy ∧ turn.bench.find? name = bench.find? name ∧
      w.Later name turn.world := by
  refine evaluateNames_keeps_of_mem (P := fun bench' w' => bench'.policy = bench.policy ∧
    bench'.find? name = bench.find? name ∧ w.Later name w') ?_ ?_ ⟨rfl, rfl, .refl name hclock⟩
  · intro other hother bench' w' ⟨hpolicy, hfind, hlater⟩
    refine ⟨(policy_evaluate w' cases (optionsOf other)).trans hpolicy, Eq.trans ?_ hfind,
      hlater.trans (evaluate_later hlater.steady (hlater.neverFails hobserver) ..)⟩
    rw [evaluate]
    cases bench'.find? other with
    | none => rfl
    | some registration =>
      dsimp only
      rw [bench_turnOf, find?_keep, if_neg (ne_of_mem_of_not_mem hother hname).symm]
  · intro other hother bench' w' reason ⟨hpolicy, hfind, hlater⟩
    exact ⟨hpolicy, hfind, hlater.record (ne_of_mem_of_not_mem hother hname) reason⟩

variable (hfind : bench.find? name = some registration)
  (hcount : ((cases.flatMap (·.truths)).length : Binary64).isFinite = true)
  (hcalls : Approach.Succeeds registration.approach (Call.whole (optionsOf name) cases))

include hfind hcount hcalls

/-- The first of several approaches, if all calls succeed: it comes to a result under a proper name
and is reported as failed under any other name. -/
theorem evaluateNames_cons_of_succeeds (hname : name ∉ names) :
    let turn := evaluateNames cases optionsOf (name :: names) bench w
    (name.IsProper → w.Later name turn.world ∧
      ∀ results, turn.outcome = .ok results → name ∈ Named.names results) ∧
    (¬name.IsProper → ∃ added, turn.world.log = w.log ++ added ∧
      EvaluationEvent.refusal name ∈ LogEntry.told added) := by
  obtain ⟨hproper, hrefused⟩ := evaluate_of_succeeds hclock hobserver hfind hcount hcalls
  have hlater := evaluate_later hclock hobserver bench name name cases (optionsOf name)
  rw [evaluateNames]
  generalize bench.evaluate w name cases (optionsOf name) = turn at hproper hrefused hlater
  obtain ⟨outcome, bench', w'⟩ := turn
  constructor
  · intro h
    obtain ⟨r, hr⟩ := hproper h
    obtain rfl : outcome = .ok r := hr
    obtain ⟨-, -, hrest⟩ := evaluateNames_later hlater.steady (hlater.neverFails hobserver)
      optionsOf hname bench' cases
    refine ⟨hlater.trans hrest, fun results hresults => ?_⟩
    obtain ⟨more, -, rfl⟩ := exists_of_map_eq_ok hresults
    exact List.mem_cons_self
  · intro h
    obtain rfl : outcome = _ := hrefused h
    dsimp only
    rw [World.tell, hlater.neverFails hobserver]
    obtain ⟨-, -, hrest⟩ := evaluateNames_later (w := w'.record (.refusal name)) hlater.steady
      (hlater.neverFails hobserver) optionsOf hname bench' cases
    obtain ⟨added, hadded, -⟩ := hlater.log
    obtain ⟨more, hmore, -⟩ := hrest.log
    refine ⟨added ++ [.event (.refusal name)] ++ more, ?_, ?_⟩
    · rw [← List.append_assoc, ← List.append_assoc, ← hadded]
      exact hmore
    · rw [LogEntry.told_append, LogEntry.told_append]
      exact List.mem_append_left _ (List.mem_append_right _ List.mem_cons_self)

/-- One of several approaches, if all its calls succeed: what comes before it leaves it as it is. -/
theorem evaluateNames_of_succeeds (hnodup : names.Nodup) (hmem : name ∈ names) :
    let turn := evaluateNames cases optionsOf names bench w
    (name.IsProper → w.Later name turn.world ∧
      ∀ results, turn.outcome = .ok results → name ∈ Named.names results) ∧
    (¬name.IsProper → ∀ results, turn.outcome = .ok results →
      ∃ added, turn.world.log = w.log ++ added ∧
        EvaluationEvent.refusal name ∈ LogEntry.told added) := by
  -- No name comes twice, so neither what comes before nor what comes after is about this approach.
  obtain ⟨before, after, rfl⟩ := List.append_of_mem hmem
  obtain ⟨-, hrest, hdisjoint⟩ := List.nodup_append.1 hnodup
  have hbefore : name ∉ before := fun h => hdisjoint name h name List.mem_cons_self rfl
  obtain ⟨-, hfind', hlater⟩ :=
    evaluateNames_later hclock hobserver optionsOf hbefore bench cases
  rw [evaluateNames_append]
  generalize evaluateNames cases optionsOf before bench w = turn at hfind' hlater
  obtain ⟨halt | found, bench', w'⟩ := turn
  · exact ⟨fun _ => ⟨hlater, nofun⟩, fun _ => nofun⟩
  · obtain ⟨hproper, hrefused⟩ := evaluateNames_cons_of_succeeds hlater.steady
      (hlater.neverFails hobserver) (hfind'.trans hfind) hcount hcalls
      (List.nodup_cons.1 hrest).1
    refine ⟨fun h => ?_, fun h results hresults => ?_⟩
    · obtain ⟨hworld, hresult⟩ := hproper h
      refine ⟨hlater.trans hworld, fun results hresults => ?_⟩
      obtain ⟨more, hmore, rfl⟩ := exists_of_map_eq_ok hresults
      rw [Named.names, List.map_append]
      exact List.mem_append_right _ (hresult more hmore)
    · obtain ⟨added, hadded, -⟩ := hlater.log
      obtain ⟨more, hmore, htold⟩ := hrefused h
      refine ⟨added ++ more, ?_, ?_⟩
      · rw [← List.append_assoc, ← hadded]
        exact hmore
      · rw [LogEntry.told_append]
        exact List.mem_append_right _ htold

end Several

/-- Results are those of approaches with proper names. -/
theorem isProper_of_mem_names {optionsOf : Text → Options} {results : Results Binary64}
    (h : (bench.evaluateAll w cases optionsOf).outcome = .ok results)
    (hname : name ∈ Named.names results) : name.IsProper := by
  have hholds : Holds (fun _ _ => True) optionsOf bench :=
    ⟨fun _ _ _ => trivial, fun _ _ _ _ _ => trivial⟩
  obtain ⟨-, -, hcourses⟩ := evaluateNames_courses hholds (fun _ => id) h
  obtain ⟨entry, hentry, rfl⟩ := List.mem_map.1 hname
  obtain ⟨a, a', clock, clock', done, -, hrun⟩ := hcourses entry hentry
  have hkeeps := CaseTally.exists_score_iff.1 ⟨_, hrun.score_of_ok.2⟩
  exact ⟨hkeeps.approach_ne_nil, hkeeps.hasSurrogate_eq_false⟩

end Bench

/-! ### Names in configurations -/

/-- The options of an entry, where the names are different. -/
theorem EvalConfig.optionsIn_eq {config : EvalConfig} {name : Text} {approach : ApproachConfig}
    (hnodup : (Named.names config.approaches).Nodup)
    (h : (name, approach) ∈ config.approaches) :
    Command.optionsIn config name = approach.options := by
  obtain ⟨found, hmem, hoptions⟩ := exists_optionsIn_eq (List.mem_map_of_mem h)
  obtain rfl := (Prod.mk.inj (List.inj_on_of_nodup_map hnodup hmem h rfl)).2
  exact hoptions

namespace Bench

variable {A : Type} [Approach A] {bench : Bench A} {w : World Binary64} {name : Text}
  {registration : Registration A} {cases : List TestCase}

/-- **Names of configured approaches.** An approach that is registered under a name of an accepted
configuration, and whose calls all succeed, comes to a result and is never reported as failed if its
name is not empty and has no lone surrogates. Under any other name that the configuration accepts it
has no result and is reported as failed for the name. The clock is steady, the observer never fails,
and the entries of the ground truth can be counted. -/
theorem evaluateAll_configured {value : Value} {config : EvalConfig} {approach : ApproachConfig}
    (hconfig : EvalConfig.check value = .valid config)
    (happroach : (name, approach) ∈ config.approaches) (hbench : Reachable Binary64 bench)
    (hfind : bench.find? name = some registration) (hclock : w.clock.Steady)
    (hobserver : w.observer.NeverFails)
    (hcount : ((cases.flatMap (·.truths)).length : Binary64).isFinite = true)
    (hcalls : Approach.Succeeds registration.approach (Call.whole approach.options cases)) :
    let turn := bench.evaluateAll w cases (Command.optionsIn config)
    (name.IsProper → (∃ added, turn.world.log = w.log ++ added ∧ name ∉ LogEntry.failures added) ∧
      ∀ results, turn.outcome = .ok results → name ∈ Named.names results) ∧
    (¬name.IsProper → ∀ results, turn.outcome = .ok results →
      name ∉ Named.names results ∧ ∃ added, turn.world.log = w.log ++ added ∧
        EvaluationEvent.refusal name ∈ LogEntry.told added) := by
  have hoptions := EvalConfig.optionsIn_eq (EvalConfig.nodup_names_of_check hconfig) happroach
  have hmem : name ∈ bench.names :=
    (Named.mem_names_iff name bench.registry).2 fun hnone => by
      rw [find?, hnone] at hfind
      cases hfind
  obtain ⟨hproper, hrefused⟩ := evaluateNames_of_succeeds hclock hobserver hfind hcount
    (hoptions ▸ hcalls) hbench.nodup_names hmem
  refine ⟨fun h => ⟨(hproper h).1.log, (hproper h).2⟩, fun h results hresults => ?_⟩
  exact ⟨fun hname => h (isProper_of_mem_names hresults hname), hrefused h results hresults⟩

/-- An approach that does all that it is asked to, and has no name. -/
def unnamed : Script := { obliging with name := [] }

/-- A bench with this approach and with one that has a name. -/
def partlyNamedBench : Bench Script := obligingBench.add unnamed

/-- A configuration that names both. -/
def partlyNamedValue : Value :=
  .ofFields [("name", "demo"), ("version", "1"),
    ("approaches", .ofFields [("obliging", .ofFields [("type", "script")]),
      ("", .ofFields [("type", "script")])])]

/-- What it says. -/
def partlyNamedConfig : EvalConfig where
  name := "demo"
  version := "1"
  cases := .default
  scoring := ⟨.lenient⟩
  approaches := [(obliging.name, ⟨"script", []⟩), (unnamed.name, ⟨"script", []⟩)]

theorem check_partlyNamed : EvalConfig.check partlyNamedValue = .valid partlyNamedConfig := rfl

theorem steadyWorld_steady : steadyWorld.clock.Steady :=
  Clock.steady_ofReadings (by decide +kernel) (by decide +kernel)

theorem succeeds_unnamed : Approach.Succeeds unnamed (Call.whole [] oneCase) :=
  Script.succeeds rfl (fun _ _ => ⟨[], rfl⟩) rfl _

/-- The approach with a name comes to a result, and the other one is refused one. -/
theorem evaluateAll_configured_partlyNamed :
    ∃ results, (partlyNamedBench.evaluateAll steadyWorld oneCase
        (Command.optionsIn partlyNamedConfig)).outcome = .ok results ∧
      obliging.name ∈ Named.names results ∧ unnamed.name ∉ Named.names results ∧
      ∃ added, (partlyNamedBench.evaluateAll steadyWorld oneCase
          (Command.optionsIn partlyNamedConfig)).world.log = [] ++ added ∧
        obliging.name ∉ LogEntry.failures added := by
  have hreachable : Reachable Binary64 partlyNamedBench :=
    .register (.register (.empty .lenient) steadyWorld obliging) steadyWorld unnamed
  have hcount : ((oneCase.flatMap (·.truths)).length : Binary64).isFinite = true := by
    decide +kernel
  have hcalls : Approach.Succeeds obliging (Call.whole [] oneCase) :=
    Script.succeeds rfl (fun _ _ => ⟨[], rfl⟩) rfl _
  obtain ⟨hproper, -⟩ := evaluateAll_configured check_partlyNamed List.mem_cons_self hreachable rfl
    steadyWorld_steady Observer.silent_neverFails hcount hcalls
  obtain ⟨-, hrefused⟩ := evaluateAll_configured check_partlyNamed
    (List.mem_cons_of_mem _ List.mem_cons_self) hreachable rfl steadyWorld_steady
    Observer.silent_neverFails hcount succeeds_unnamed
  obtain ⟨⟨added, hlog, hadded⟩, hresult⟩ := hproper ⟨by decide +kernel, by decide +kernel⟩
  obtain ⟨results, hresults⟩ := evaluateAll_ok Script.neverInterrupts
    (Command.optionsIn partlyNamedConfig) oneCase partlyNamedBench steadyWorld_steady
    Observer.silent_neverFails
  have hunnamed := hrefused (fun h => h.1 rfl) results hresults
  exact ⟨results, hresults, hresult results hresults, hunnamed.1, added, hlog, hadded⟩

/-- A configuration accepts the empty name. An approach that is registered under it, all of whose
calls succeed on a steady clock, is reported as failed. -/
theorem evaluateAll_reports_unnamed :
    EvalConfig.check partlyNamedValue = .valid partlyNamedConfig ∧
    (unnamed.name, ⟨"script", []⟩) ∈ partlyNamedConfig.approaches ∧
    partlyNamedBench.find? unnamed.name = some ⟨1, unnamed⟩ ∧ steadyWorld.clock.Steady ∧
    steadyWorld.observer.NeverFails ∧ Approach.Succeeds unnamed (Call.whole [] oneCase) ∧
    unnamed.name ∈ LogEntry.failures (partlyNamedBench.evaluateAll steadyWorld oneCase
      (Command.optionsIn partlyNamedConfig)).world.log := by
  refine ⟨check_partlyNamed, List.mem_cons_of_mem _ List.mem_cons_self, rfl, steadyWorld_steady,
    Observer.silent_neverFails, succeeds_unnamed, ?_⟩
  decide +kernel

end Bench

end TypeBench
