import TypeBench.Proofs.Evaluation.Timing
import TypeBench.Proofs.Evaluation.Uninterrupted
import TypeBench.Proofs.Matching.Account

/-!
# Bounds of results

The metrics look at no bounds; they divide what they are given. That their shares are between zero
and one is a fact about what an evaluation gives them: the matching that it collects accounts for
the predictions and for the ground truth that it collects, over any number of test cases. With exact
numbers and a steady clock a result therefore always keeps its bounds, and scoring fails for no
approach with a proper name. It fails for one whose name is a lone surrogate.

## Main definitions

* `LabelMap.IsShares`: a map of shares.
* `EvaluationResult.WithinBounds`: the bounds of counts, shares and leftovers of a result.
* `EvaluationResult.IsSound`: a result within bounds that keeps account of its test cases.
* `Approach.Halts`: a call that ends early.

## Main results

* `MatchSet.Accounts.withinBounds`: what accounts for both lists is scored within bounds.
* `CasesRun.score_isSound`: completed test cases are scored, and soundly.
* `CourseRun.sound_or_halts`: on a steady clock only a call can end a course early.
* `Bench.evaluate_sound`: the same of evaluations.
-/

namespace TypeBench

/-! ### Maps of shares -/

namespace LabelMap

/-- All values of a map are shares, which are between zero and one. -/
def IsShares (map : LabelMap ℚ) : Prop := ∀ entry ∈ map, entry.2 ∈ Set.Icc 0 1

/-- Parts are no more than the whole, label by label. -/
theorem isShares_shares {correct labels : List Text}
    (h : ∀ label, correct.count label ≤ labels.count label) :
    (LabelMap.shares ℚ correct labels).IsShares := by
  intro entry hentry
  obtain ⟨label, -, rfl⟩ := List.mem_map.1 hentry
  exact Exact.ratio_mem (h label)

variable {precisions recalls : LabelMap ℚ}

/-- A label that is missing has no share. -/
theorem IsShares.valueOf_mem (h : precisions.IsShares) (label : Text) :
    precisions.valueOf label ∈ Set.Icc 0 1 := by
  rw [valueOf]
  cases hlookup : precisions.lookup label with
  | none =>
    change Quantity.zero ∈ _
    rw [Exact.zero_eq]
    exact ⟨le_refl 0, zero_le_one⟩
  | some share =>
    obtain ⟨before, after, hmap, -⟩ := List.lookup_eq_some_iff.1 hlookup
    have hentry : (label, share) ∈ precisions := by
      rw [hmap]
      exact List.mem_append_right _ List.mem_cons_self
    exact h _ hentry

theorem IsShares.harmonicMean (hprecisions : precisions.IsShares) (hrecalls : recalls.IsShares) :
    (LabelMap.harmonicMean precisions recalls).IsShares := by
  intro entry hentry
  obtain ⟨label, -, rfl⟩ := List.mem_map.1 hentry
  exact Exact.harmonicMean_mem (hprecisions.valueOf_mem label) (hrecalls.valueOf_mem label)

end LabelMap

/-! ### Results within bounds -/

namespace EvaluationResult

/-- The bounds of the counts, the shares and the leftovers of a result about a ground truth. -/
structure WithinBounds (r : EvaluationResult ℚ) (truths : List GroundTruth) : Prop where
  correct_le_total : r.correct ≤ r.total
  total_le_length : r.total ≤ r.predictions.length
  accuracy_mem : r.accuracy ∈ Set.Icc 0 1
  accuracy_eq : r.accuracy = if r.total = 0 then 0 else (r.correct : ℚ) / r.total
  precisions : r.precisions.IsShares
  recalls : r.recalls.IsShares
  means : r.means.IsShares
  /-- The predictions that are left over are counted. -/
  unmatched_predictions : ∃ n ≤ r.predictions.length,
    r.additional.lookup (Text.ofString "unmatched_predictions") = some (n : ℚ)
  /-- The entries that are left over are counted. -/
  unmatched_truths : ∃ n ≤ truths.length,
    r.additional.lookup (Text.ofString "unmatched_ground_truth") = some (n : ℚ)
  coverage : ∃ share ∈ Set.Icc (0 : ℚ) 1,
    r.additional.lookup (Text.ofString "coverage") = some share

end EvaluationResult

/-- What accounts for both lists is scored within bounds. -/
theorem MatchSet.Accounts.withinBounds {m : MatchSet} {predictions : List TypePrediction}
    {truths : List GroundTruth} (h : m.Accounts predictions truths) (policy : ScoringPolicy)
    (name : Text) (time : ℚ) :
    (m.scores policy name predictions truths time).WithinBounds truths := by
  have hcorrect : m.correctCount ≤ m.scoredCount policy :=
    Nat.le_trans m.correctCount_le_found (m.found_le_scoredCount policy)
  have hprecisions : (m.precisions ℚ policy).IsShares := by
    rw [precisions_eq]
    exact LabelMap.isShares_shares (m.count_correctLabels_le_scored policy)
  have hrecalls : (m.recalls ℚ truths).IsShares :=
    LabelMap.isShares_shares h.count_correctLabels_le_truths
  have haccuracy : m.accuracy ℚ policy =
      if m.scoredCount policy = 0 then 0 else (m.correctCount : ℚ) / m.scoredCount policy := by
    rw [accuracy, Quantity.ratio, Exact.zero_eq]
  exact {
    correct_le_total := hcorrect
    total_le_length := h.scoredCount_le policy
    accuracy_mem := Exact.ratio_mem hcorrect
    accuracy_eq := haccuracy
    precisions := hprecisions
    recalls := hrecalls
    means := hprecisions.harmonicMean hrecalls
    unmatched_predictions := ⟨_, h.balances.predictions_length ▸ Nat.le_add_left _ _, rfl⟩
    unmatched_truths := ⟨_, h.balances.truths_length ▸ Nat.le_add_left _ _, rfl⟩
    coverage := ⟨_, Exact.ratio_mem (Nat.sub_le _ _), rfl⟩ }

namespace EvaluationResult

/-- A result within bounds is accepted if its name is proper and its time not negative. -/
theorem WithinBounds.keepsBounds {r : EvaluationResult ℚ} {truths : List GroundTruth}
    (h : r.WithinBounds truths) (hne : r.approach ≠ []) (hname : r.approach.hasSurrogate = false)
    (htime : 0 ≤ r.time) : r.KeepsBounds := by
  obtain ⟨hzero, hone⟩ := h.accuracy_mem
  exact {
    hasSurrogate_eq_false := hname
    approach_ne_nil := hne
    accuracy_le_one := Exact.le_iff.2 (hone.trans_eq Nat.cast_one.symm)
    zero_le_accuracy := Exact.le_iff.2 (Exact.zero_eq.trans_le hzero)
    zero_le_time := Exact.le_iff.2 (Exact.zero_eq.trans_le htime) }

/-- A result within its bounds that keeps account of completed test cases: it lists their
predictions, and its time is that of the predictions. -/
structure IsSound (r : EvaluationResult ℚ) (name : Text) (done : List (CompletedCase ℚ))
    (clock : Clock ℚ) : Prop extends r.KeepsBounds,
    r.WithinBounds (done.flatMap (·.case.truths)) where
  approach_eq : r.approach = name
  predictions_eq : r.predictions = done.flatMap (·.predictions)
  time_eq : r.time = ∑ i ∈ Finset.range done.length, clock.around i
  time_nonneg : 0 ≤ r.time
  time_of_nil : done = [] → r.time = 0
  /-- The time is no more than that from the first to the last reading of the clock. -/
  time_le : ∀ n, done.length = n + 1 → r.time ≤ clock.shown (2 * n + 1) - clock.shown 0

end EvaluationResult

/-! ### Scores of test cases -/

namespace CaseTally

variable (done : List (CompletedCase ℚ)) (policy : ScoringPolicy) (name : Text)

theorem withinBounds_addAll :
    ((CaseTally.empty.addAll done).scores policy name).WithinBounds
      (done.flatMap (·.case.truths)) := by
  rw [scores_addAll]
  exact (accounts_addAll done).withinBounds policy name _

variable {done name}

/-- The scores of test cases keep their bounds if the name is proper and the time not negative. -/
theorem keepsBounds_addAll (hne : name ≠ []) (hname : name.hasSurrogate = false)
    (htime : 0 ≤ (CaseTally.empty.addAll done).time) :
    ((CaseTally.empty.addAll done).scores policy name).KeepsBounds :=
  (withinBounds_addAll done policy name).keepsBounds hne hname htime

end CaseTally

section Run

variable {A : Type} [Approach A] {a a' : A} {clock clock' : Clock ℚ}

/-- Completed test cases are scored, and soundly. -/
theorem CasesRun.score_isSound {cases : List TestCase} {done : List (CompletedCase ℚ)}
    {last? : Option BrokenCase} {name : Text} (h : CasesRun a clock cases done last? a' clock')
    (hclock : clock.Steady) (hne : name ≠ []) (hname : name.hasSurrogate = false)
    (policy : ScoringPolicy) :
    let r := (CaseTally.empty.addAll done).scores policy name
    (CaseTally.empty.addAll done).score policy name = .ok r ∧ r.IsSound name done clock := by
  intro r
  have htime : r.time = ∑ i ∈ Finset.range done.length, clock.around i := h.time_addAll
  have hzero : 0 ≤ r.time := by
    rw [htime]
    exact hclock.zero_le_sum_around _
  have hkeeps : r.KeepsBounds := CaseTally.keepsBounds_addAll policy hne hname hzero
  refine ⟨CaseTally.score_of_keepsBounds hkeeps, ?_⟩
  exact {
    toKeepsBounds := hkeeps
    toWithinBounds := CaseTally.withinBounds_addAll done policy name
    approach_eq := rfl
    predictions_eq := CaseTally.predictions_addAll done
    time_eq := htime
    time_nonneg := hzero
    time_of_nil := by
      rintro rfl
      exact htime
    time_le := by
      intro n hlength
      rw [htime, hlength]
      exact hclock.sum_around_le n }

end Run

/-! ### What ends a course early -/

/-- A call ends with a failure or an interrupt. -/
def Approach.Halts {A : Type} [Approach A] (halt : Halt) (a : A) : Call → Prop
  | .configure options => (Approach.configure options a).outcome = .error halt
  | .predict source file => (Approach.predict source file a).outcome = .error halt
  | .dispose => (Approach.dispose a).outcome = .error halt

section Halts

variable {R A : Type} [Quantity R] [Approach A] {a a' : A} {clock clock' : Clock R}

/-- On a steady clock a test case breaks off when it is predicted. -/
theorem BreaksCase.halts {last : BrokenCase} (h : BreaksCase a clock last a' clock')
    (hclock : clock.Steady) :
    last.isCalled = true ∧ Approach.Halts last.halt a (.predict last.case.source last.case.id) := by
  obtain ⟨started, stopped, time, clock₁, clock₂, hstart, hstop, htime, -, -⟩ := hclock.read_twice
  cases h with
  | unstarted hfails =>
    rw [hstart] at hfails
    cases hfails
  | unpredicted _ hpredict => exact ⟨rfl, hpredict⟩
  | unstopped hstarted _ hfails =>
    obtain ⟨-, rfl⟩ := Prod.mk.inj (hstart.symm.trans hstarted)
    rw [hstop] at hfails
    cases hfails
  | untimed hstarted _ hstopped hfails =>
    obtain ⟨hreading, rfl⟩ := Prod.mk.inj (hstart.symm.trans hstarted)
    obtain ⟨hreading', -⟩ := Prod.mk.inj (hstop.symm.trans hstopped)
    obtain rfl := Except.ok.inj hreading
    obtain rfl := Except.ok.inj hreading'
    rw [htime] at hfails
    cases hfails

theorem CompletesCase.after_eq {done : CompletedCase R}
    (h : CompletesCase a clock done a' clock') (hclock : clock.Steady) :
    a' = Approach.after a (.predict done.case.source done.case.id) ∧ clock'.Steady := by
  obtain ⟨hstart, -, hstop, -⟩ := h
  have hsteady := hclock.read.read
  rw [hstart] at hsteady
  change Clock.Steady (Clock.read _).2 at hsteady
  rw [hstop] at hsteady
  exact ⟨rfl, hsteady⟩

/-- On a steady clock the last call of a run that breaks off is the one that ends it. -/
theorem CasesRun.halts {cases : List TestCase} {done : List (CompletedCase R)}
    {last? : Option BrokenCase} (h : CasesRun a clock cases done last? a' clock')
    (hclock : clock.Steady) {last : BrokenCase} (hlast : last? = some last) :
    ∃ earlier c, CasesRun.calls done last? = earlier ++ [c] ∧
      Approach.Halts last.halt (earlier.foldl Approach.after a) c := by
  induction h with
  | nil => exact absurd hlast.symm (Option.some_ne_none _)
  | broken hbreaks =>
    obtain rfl := Option.some.inj hlast
    obtain ⟨hcalled, hhalts⟩ := hbreaks.halts hclock
    refine ⟨[], _, ?_, hhalts⟩
    simp [CasesRun.calls, hcalled]
  | completed hfirst _ ih =>
    obtain ⟨rfl, hsteady⟩ := hfirst.after_eq hclock
    obtain ⟨earlier, c, hcalls, hhalts⟩ := ih hsteady hlast
    refine ⟨_ :: earlier, c, ?_, hhalts⟩
    rw [CasesRun.calls_cons, hcalls]
    rfl

end Halts

/-- With exact numbers, a steady clock and a proper name a course comes to a sound result, unless
its last call ends it: no scoring fails. -/
theorem CourseRun.sound_or_halts {A : Type} [Approach A] {a a' : A} {clock clock' : Clock ℚ}
    {policy : ScoringPolicy} {name : Text} {cases : List TestCase} {options : Options}
    {course : Course ℚ} (h : CourseRun policy name cases options a clock course a' clock')
    (hclock : clock.Steady) (hne : name ≠ []) (hname : name.hasSurrogate = false) :
    (∃ r, course.outcome = .ok r ∧ course.completed.map (·.case) = cases ∧
      r.IsSound name course.completed clock) ∨
    ∃ halt earlier c, course.outcome = .error halt ∧ course.calls options = earlier ++ [c] ∧
      Approach.Halts halt (earlier.foldl Approach.after a) c := by
  cases h with
  | unconfigured hconfigure => exact .inr ⟨_, [], .configure options, rfl, rfl, hconfigure⟩
  | @broken done last _ _ _ hcases =>
    obtain ⟨earlier, c, hcalls, hhalts⟩ := hcases.halts hclock rfl
    refine .inr ⟨last.halt, .configure options :: earlier, c, rfl, ?_, hhalts⟩
    rw [Course.calls, hcalls]
    rfl
  | scored _ hcases =>
    obtain ⟨hscore, hsound⟩ := hcases.score_isSound hclock hne hname policy
    exact .inl ⟨_, hscore, hcases.cases_eq rfl, hsound⟩

/-! ### Evaluations -/

namespace Bench

variable {A : Type} [Approach A] {bench : Bench A} {world : World ℚ} {name : Text}
  {registration : Registration A}

/-- **Sound scores.** With exact numbers and a steady clock, scoring fails for no approach with a
proper name, whatever it predicts: an evaluation takes a course that comes to a sound result unless
its last call ends it. Every result of an evaluation, whatever the observer does, is sound about all
test cases. -/
theorem evaluate_sound (hfind : bench.find? name = some registration) (hne : name ≠ [])
    (hname : name.hasSurrogate = false) (hclock : world.clock.Steady) (cases : List TestCase)
    (options : Options) :
    (∀ (course : Course ℚ) (a : A) (clock : Clock ℚ),
      CourseRun bench.policy name cases options registration.approach world.clock course a clock →
        (∃ r, course.outcome = .ok r ∧ course.completed.map (·.case) = cases ∧
          r.IsSound name course.completed world.clock) ∨
        ∃ halt earlier c, course.outcome = .error halt ∧ course.calls options = earlier ++ [c] ∧
          Approach.Halts halt (earlier.foldl Approach.after registration.approach) c) ∧
    (∀ r, (bench.evaluate world name cases options).outcome = .ok r →
      ∃ (done : List (CompletedCase ℚ)) (a : A) (clock : Clock ℚ),
        CourseRun bench.policy name cases options registration.approach world.clock
          ⟨done, none, .ok r⟩ a clock ∧
        done.map (·.case) = cases ∧ r.IsSound name done world.clock) ∧
    (world.observer.NeverFails → ∃ (course : Course ℚ) (a : A) (clock : Clock ℚ),
      CourseRun bench.policy name cases options registration.approach world.clock course a clock ∧
        (bench.evaluate world name cases options).outcome =
          course.ending name (Approach.dispose a).outcome) := by
  refine ⟨fun course a clock hcourse => hcourse.sound_or_halts hclock hne hname, ?_, ?_⟩
  · intro r hr
    obtain ⟨registered, done, a, clock, hregistered, hcourse⟩ := evaluate_ok hr
    obtain rfl := Option.some.inj (hfind.symm.trans hregistered)
    rcases hcourse.sound_or_halts hclock hne hname with
      ⟨r', hr', hcases, hsound⟩ | ⟨halt, -, -, herror, -⟩
    · obtain rfl := Except.ok.inj hr'
      exact ⟨done, a, clock, hcourse, hcases, hsound⟩
    · cases herror
  · intro hobserver
    obtain ⟨course, a, _, clock, _, hcourse, heq, -, -⟩ :=
      evaluate_run hfind hobserver cases options
    exact ⟨course, a, clock, hcourse, by rw [heq]⟩

/-- A world of exact numbers in which two test cases take two seconds and five, with a pause of one
second between them. -/
def pausingWorld : World ℚ :=
  ⟨.ofReadings [.time (.whole 1), .time (.whole 3), .time (.whole 4), .time (.whole 9)], .silent,
    []⟩

theorem pausingWorld_steady : pausingWorld.clock.Steady := by
  have hself : Clock.NotAfter (.whole 9 : Mixed ℚ) (.whole 9) := Clock.notAfter_exact (le_refl _)
  refine Clock.steady_iff.2 ⟨⟨_, _, rfl, rfl, Clock.notAfter_exact (by decide)⟩, ?_⟩
  refine Clock.steady_iff.2 ⟨⟨_, _, rfl, rfl, Clock.notAfter_exact (by decide)⟩, ?_⟩
  refine Clock.steady_iff.2 ⟨⟨_, _, rfl, rfl, Clock.notAfter_exact (by decide)⟩, ?_⟩
  exact Clock.steady_iff.2 ⟨⟨_, _, rfl, rfl, hself⟩, Clock.steady_of_notAfter_self hself⟩

/-- The pause between the test cases is not in the time of the evaluation. -/
theorem evaluate_sound_sharedPlace :
    labeller.name ≠ [] ∧ labeller.name.hasSurrogate = false ∧ pausingWorld.clock.Steady ∧
    ∃ (r : EvaluationResult ℚ) (done : List (CompletedCase ℚ)),
      (labellerBench.evaluate pausingWorld labeller.name sharedPlace []).outcome = .ok r ∧
      done.map (·.case) = sharedPlace ∧ r.IsSound labeller.name done pausingWorld.clock ∧
      r.time = 2 + 5 ∧ r.time ≤ pausingWorld.clock.shown 3 - pausingWorld.clock.shown 0 := by
  have hfind : labellerBench.find? labeller.name = some ⟨0, labeller⟩ := rfl
  have hne : labeller.name ≠ [] := by decide +kernel
  have hname : labeller.name.hasSurrogate = false := by decide +kernel
  obtain ⟨-, hsound, -⟩ := evaluate_sound hfind hne hname pausingWorld_steady sharedPlace []
  refine ⟨hne, hname, pausingWorld_steady, ?_⟩
  have hoftime : (labellerBench.evaluate pausingWorld labeller.name sharedPlace []).outcome.map
      (·.time) = .ok (2 + 5) := by decide +kernel
  obtain ⟨r, houtcome, htime⟩ := exists_of_map_eq_ok hoftime
  obtain ⟨done, -, -, -, hcases, hr⟩ := hsound r houtcome
  have hlength : done.length = 1 + 1 := by
    rw [← List.length_map (·.case), hcases]
    rfl
  exact ⟨r, done, houtcome, hcases, hr, htime, hr.time_le 1 hlength⟩

/-- An approach whose name is a lone surrogate. -/
def surrogate : Script where
  name := [0xD800]
  ready := .ok ()
  predictions _ _ := .ok []
  done := .ok ()

/-- What is said of its scores. -/
def surrogateReport : Report := ⟨EvaluationResult.recordName, [⟨[.key "approach_name"], .unicode⟩]⟩

/-- A world of rounded numbers in which one test case follows another without a pause. -/
def roundingWorld : World Binary64 :=
  ⟨.ofReadings (Clock.measuredReadings
    [.zero false, .ofQuotient 3 10, .ofQuotient 3 10, .ofQuotient 9 10]), .silent, []⟩

/-- An approach that does all that it is asked to, on a steady clock and under a name that is not
empty, is refused its scores for the name. And times that are rounded may add up to more than the
time from the first to the last reading. -/
theorem evaluate_unsound :
    (surrogate.name ≠ [] ∧ pausingWorld.clock.Steady ∧ pausingWorld.observer.NeverFails ∧
      (((Bench.empty .strict).add surrogate).evaluate pausingWorld surrogate.name sharedPlace
        []).outcome = .error (.failed (.report surrogateReport))) ∧
    roundingWorld.clock.Steady ∧ ∃ r : EvaluationResult Binary64,
      (labellerBench.evaluate roundingWorld labeller.name sharedPlace []).outcome = .ok r ∧
      Binary64.lt (Binary64.ofQuotient 9 10 - Binary64.zero false) r.time = true := by
  refine ⟨⟨by decide +kernel, pausingWorld_steady, Observer.silent_neverFails, ?_⟩,
    Clock.steady_ofReadings (by decide +kernel) (by decide +kernel), ?_⟩
  · have htotal : (((Bench.empty .strict).add surrogate).evaluate pausingWorld surrogate.name
        sharedPlace []).outcome.map (·.total) = .error (.failed (.report surrogateReport)) := by
      decide +kernel
    exact eq_error_of_map_eq_error htotal
  · have htime : (labellerBench.evaluate roundingWorld labeller.name sharedPlace []).outcome.map
        (fun r => Binary64.lt (Binary64.ofQuotient 9 10 - Binary64.zero false) r.time) =
          .ok true := by decide +kernel
    exact exists_of_map_eq_ok htime

end Bench

end TypeBench
