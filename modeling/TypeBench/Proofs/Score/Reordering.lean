import TypeBench.Proofs.Evaluation.Success
import TypeBench.Proofs.Matching.Reordering
import TypeBench.Proofs.Score.LabelMaps
import TypeBench.Proofs.Score.Perfect

/-!
# Scores in another order

Every score is a number of items of a list: of matches, of leftovers, or of those with a label. So
no score depends on the order of a matching, and none on the order of the test cases that it was
made of. The labels of a map come in the order in which they first came, which does change; but a
label has its share wherever it stands. Nothing is asked of the numbers: they are computed from the
same counts in the same way, rounding included.

## Main definitions

* `EvaluationResult.SameScores`: results that differ in names, predictions, times and order at most.

## Main results

* `LabelMap.lookup_shares_of_perm`: shares do not depend on the order of a list.
* `MatchSet.IsReordering.sameScores`: neither do the scores of a matching.
* `Bench.evaluate_reordered`: nor those of test cases, or of the results of evaluations.
-/

namespace TypeBench

open List

/-! ### Maps of labels -/

namespace LabelMap

variable {R : Type} [Quantity R]

/-- Shares do not depend on the order of a list. -/
theorem lookup_shares_of_perm {correct correct' labels labels' : List Text}
    (hcorrect : correct ~ correct') (hlabels : labels ~ labels') (label : Text) :
    (shares R correct labels).lookup label = (shares R correct' labels').lookup label := by
  simp only [lookup_shares, hlabels.mem_iff, hcorrect.count_eq, hlabels.count_eq]

/-- Harmonic means depend on what the labels of two maps have, and not on their order. -/
theorem lookup_harmonicMean_congr {precisions precisions' recalls recalls' : LabelMap R}
    (hprecisions : ∀ label, precisions.lookup label = precisions'.lookup label)
    (hrecalls : ∀ label, recalls.lookup label = recalls'.lookup label) (label : Text) :
    (harmonicMean precisions recalls).lookup label =
      (harmonicMean precisions' recalls').lookup label := by
  simp only [lookup_harmonicMean, mem_append, Named.mem_names_iff, valueOf, hprecisions, hrecalls]

end LabelMap

/-! ### Scores -/

/-- Results that have the same scores; the labels of their maps may come in another order. -/
structure EvaluationResult.SameScores {R : Type} (r r' : EvaluationResult R) : Prop where
  accuracy_eq : r.accuracy = r'.accuracy
  total_eq : r.total = r'.total
  correct_eq : r.correct = r'.correct
  precisions_eq : ∀ label, r.precisions.lookup label = r'.precisions.lookup label
  recalls_eq : ∀ label, r.recalls.lookup label = r'.recalls.lookup label
  means_eq : ∀ label, r.means.lookup label = r'.means.lookup label
  additional_eq : r.additional = r'.additional

namespace MatchSet.IsReordering

variable {a b : MatchSet}

theorem correctCount_eq (h : a.IsReordering b) : a.correctCount = b.correctCount :=
  h.found.countP_eq _

theorem scoredCount_eq (h : a.IsReordering b) (policy : ScoringPolicy) :
    a.scoredCount policy = b.scoredCount policy := by
  cases policy with
  | lenient => exact h.found.length_eq
  | strict => rw [scoredCount, scoredCount, h.found.length_eq, h.predicted.length_eq]

theorem correctLabels (h : a.IsReordering b) : a.correctLabels ~ b.correctLabels :=
  (h.found.filter _).map _

theorem scoredLabels (h : a.IsReordering b) (policy : ScoringPolicy) :
    a.scoredLabels policy ~ b.scoredLabels policy := by
  cases policy with
  | lenient => exact (h.found.map _).append (.refl [])
  | strict => exact (h.found.map _).append (h.predicted.map _)

/-- The scores of a matching do not depend on its order. -/
theorem sameScores {R : Type} [Quantity R] (h : a.IsReordering b) {ts us : List GroundTruth}
    (htruths : ts ~ us) (policy : ScoringPolicy) (name name' : Text) (ps qs : List TypePrediction)
    (time time' : R) :
    (a.scores policy name ps ts time).SameScores (b.scores policy name' qs us time') := by
  have hprecisions (label : Text) :
      (a.precisions R policy).lookup label = (b.precisions R policy).lookup label := by
    rw [precisions_eq, precisions_eq]
    exact LabelMap.lookup_shares_of_perm h.correctLabels (h.scoredLabels policy) label
  have hrecalls (label : Text) : (a.recalls R ts).lookup label = (b.recalls R us).lookup label :=
    LabelMap.lookup_shares_of_perm h.correctLabels (htruths.map _) label
  have haccuracy : a.accuracy R policy = b.accuracy R policy := by
    rw [accuracy, accuracy, h.correctCount_eq, h.scoredCount_eq]
  have hadditional : a.additional R ts = b.additional R us := by
    simp only [additional, coverage, h.predicted.length_eq, h.verified.length_eq,
      htruths.length_eq]
  exact {
    accuracy_eq := haccuracy
    total_eq := h.scoredCount_eq policy
    correct_eq := h.correctCount_eq
    precisions_eq := hprecisions
    recalls_eq := hrecalls
    means_eq := LabelMap.lookup_harmonicMean_congr hprecisions hrecalls
    additional_eq := hadditional }

end MatchSet.IsReordering

/-! ### Test cases -/

section Cases

variable {R : Type} [Quantity R]

/-- Results of the same accuracy are accepted together, if their times are not negative. -/
theorem EvaluationResult.KeepsBounds.of_accuracy_eq {r r' : EvaluationResult R}
    (h : r.KeepsBounds) (happroach : r.approach = r'.approach)
    (haccuracy : r.accuracy = r'.accuracy)
    (htime : Quantity.le Quantity.zero r'.time = true) : r'.KeepsBounds where
  hasSurrogate_eq_false := happroach ▸ h.hasSurrogate_eq_false
  approach_ne_nil := happroach ▸ h.approach_ne_nil
  accuracy_le_one := haccuracy ▸ h.accuracy_le_one
  zero_le_accuracy := haccuracy ▸ h.zero_le_accuracy
  zero_le_time := htime

namespace CaseTally

variable {done done' : List (CompletedCase R)}

theorem sameScores_addAll (h : CompletedCase.Reorders done done') (policy : ScoringPolicy)
    (name name' : Text) :
    ((CaseTally.empty.addAll done).scores policy name).SameScores
      ((CaseTally.empty.addAll done').scores policy name') := by
  rw [scores_addAll, scores_addAll]
  exact (isReordering_addAll h).sameScores h.truths ..

/-- Test cases in another order are scored or refused together. -/
theorem exists_score_iff_of_reorders (h : CompletedCase.Reorders done done')
    (htime : Quantity.le Quantity.zero (CaseTally.empty.addAll done).time = true)
    (htime' : Quantity.le Quantity.zero (CaseTally.empty.addAll done').time = true)
    (policy : ScoringPolicy) (name : Text) :
    (∃ r, (CaseTally.empty.addAll done).score policy name = .ok r) ↔
      ∃ r', (CaseTally.empty.addAll done').score policy name = .ok r' := by
  have haccuracy := (sameScores_addAll h policy name name).accuracy_eq
  rw [exists_score_iff, exists_score_iff]
  exact ⟨fun hbounds => hbounds.of_accuracy_eq rfl haccuracy htime',
    fun hbounds => hbounds.of_accuracy_eq rfl haccuracy.symm htime⟩

end CaseTally

end Cases

/-! ### Evaluations -/

/-- What a script predicts for a test case, if anything. -/
def Script.predictionsFor (script : Script) (case : TestCase) : List TypePrediction :=
  (script.predictions case.source case.id).toOption.getD []

section Scripts

variable {R : Type} [Quantity R] {a a' : Script} {clock clock' : Clock R} {cases : List TestCase}
  {done : List (CompletedCase R)}

/-- A script predicts the same for a test case wherever it comes. -/
theorem CasesRun.predictions_of_script {last? : Option BrokenCase}
    (h : CasesRun a clock cases done last? a' clock') :
    ∀ c ∈ done, c.predictions = a.predictionsFor c.case := by
  induction h with
  | nil => exact fun c hc => absurd hc not_mem_nil
  | broken => exact fun c hc => absurd hc not_mem_nil
  | @completed a _ _ _ _ _ _ _ _ _ hfirst _ ih =>
    obtain ⟨-, hpredict, -, -⟩ := hfirst
    have hanswer : a.predictions _ _ = .ok _ := eq_ok_of_mapError_eq_ok hpredict
    refine forall_mem_cons.2 ⟨?_, ih⟩
    rw [Script.predictionsFor, hanswer]
    rfl

theorem CourseRun.predictions_of_script {policy : ScoringPolicy} {name : Text} {options : Options}
    {r : EvaluationResult R}
    (h : CourseRun policy name cases options a clock ⟨done, none, .ok r⟩ a' clock') :
    ∀ c ∈ done, c.predictions = a.predictionsFor c.case := by
  obtain ⟨hrun, -⟩ := h.run_of_ok
  exact hrun.predictions_of_script

end Scripts

namespace Bench

/-- **Order.** The scores of results do not depend on the order of the test cases, each with its
predictions, nor on the order of predictions and ground truth within a test case in which no key
comes twice on either side. Scores are then accepted or refused together, whatever their times are.
The same holds of results over one source unit, and of the results of two evaluations. -/
theorem evaluate_reordered {R : Type} [Quantity R] :
    (∀ (done done' : List (CompletedCase R)), CompletedCase.Reorders done done' →
      ∀ (policy : ScoringPolicy) (name : Text),
        (∀ r r' : EvaluationResult R,
          (CaseTally.empty.addAll done).score policy name = .ok r →
          (CaseTally.empty.addAll done').score policy name = .ok r' → r.SameScores r') ∧
        (Quantity.le Quantity.zero (CaseTally.empty.addAll done).time = true →
          Quantity.le Quantity.zero (CaseTally.empty.addAll done').time = true →
            ((∃ r, (CaseTally.empty.addAll done).score policy name = .ok r) ↔
              ∃ r', (CaseTally.empty.addAll done').score policy name = .ok r'))) ∧
    (∀ (ps qs : List TypePrediction) (ts us : List GroundTruth), ps ~ qs → ts ~ us →
      (ps.map (·.key)).Nodup → (ts.map (·.key)).Nodup →
        (MatchSet.ofPredictions ps ts).IsReordering (.ofPredictions qs us) ∧
        ∀ (policy : ScoringPolicy) (name : Text) (time time' : R) (r r' : EvaluationResult R),
          EvaluationResult.ofPredictions policy name ps ts time = .ok r →
          EvaluationResult.ofPredictions policy name qs us time' = .ok r' → r.SameScores r') ∧
    ∀ (A A' : Type) [Approach A] [Approach A'] (bench : Bench A) (bench' : Bench A')
      (world world' : World R) (name name' : Text) (cases cases' : List TestCase)
      (options options' : Options) (r r' : EvaluationResult R), bench.policy = bench'.policy →
      (bench.evaluate world name cases options).outcome = .ok r →
      (bench'.evaluate world' name' cases' options').outcome = .ok r' →
        ∃ (done done' : List (CompletedCase R)) (registration : Registration A)
          (registration' : Registration A') (a : A) (a' : A') (clock clock' : Clock R),
          bench.find? name = some registration ∧ bench'.find? name' = some registration' ∧
          CourseRun bench.policy name cases options registration.approach world.clock
            ⟨done, none, .ok r⟩ a clock ∧
          CourseRun bench'.policy name' cases' options' registration'.approach world'.clock
            ⟨done', none, .ok r'⟩ a' clock' ∧
          done.map (·.case) = cases ∧ done'.map (·.case) = cases' ∧
          (CompletedCase.Reorders done done' → r.SameScores r') := by
  refine ⟨fun done done' h policy name => ⟨fun r r' hr hr' => ?_, fun htime htime' =>
    CaseTally.exists_score_iff_of_reorders h htime htime' policy name⟩,
    fun ps qs ts us hpredictions htruths hps hts => ?_,
    fun A A' _ _ bench bench' world world' name name' cases cases' options options' r r' hpolicy
      hr hr' => ?_⟩
  · rw [CaseTally.scores_of_score hr, CaseTally.scores_of_score hr']
    exact CaseTally.sameScores_addAll h policy name name
  · have hmatching := MatchSet.isReordering_ofPredictions hpredictions htruths hps hts
    refine ⟨hmatching, fun policy name time time' r r' hr hr' => ?_⟩
    rw [EvaluationResult.eq_of_accept hr, EvaluationResult.eq_of_accept hr']
    exact hmatching.sameScores htruths ..
  · obtain ⟨registration, done, a, clock, hfind, hcourse, hcases, rfl⟩ := evaluate_scored hr
    obtain ⟨registration', done', a', clock', hfind', hcourse', hcases', rfl⟩ :=
      evaluate_scored hr'
    refine ⟨done, done', registration, registration', a, a', clock, clock', hfind, hfind', hcourse,
      hcourse', hcases, hcases', fun h => ?_⟩
    rw [hpolicy]
    exact CaseTally.sameScores_addAll h bench'.policy name name'

/-- Predictions for two variables at one place. -/
def twoGuesses : List TypePrediction :=
  [MatchSet.guess "string", (MatchSet.guess "number").renamed fun _ => Text.ofString "y"]

/-- Entries for both variables. -/
def twoEntries : List GroundTruth :=
  [MatchSet.firstEntry "x" "string", MatchSet.firstEntry "y" "string"]

/-- A test case with these entries, and these predictions for it. -/
def guessedPair (predictions : List TypePrediction) (truths : List GroundTruth) :
    CompletedCase Binary64 where
  case := ⟨Text.ofString "c2", Text.ofString "case c2", Text.ofString "x, y", truths, none⟩
  predictions := predictions
  time := 1

/-- A bench with an approach that knows the variables of the test cases that share a place. -/
def knowingBench : Bench Script := (Bench.empty .strict).add knowing

/-- Two test cases in either order, in evaluations, and two predictions for one of them in either
order: the labels of the precisions change places, and the scores are the same. -/
theorem evaluate_reordered_backwards :
    let world : World Binary64 := ⟨.ofReadings [], .silent, []⟩
    let string := Text.ofString "string"
    let number := Text.ofString "number"
    let done := [guessedPair twoGuesses twoEntries, MatchSet.guessedCase]
    let done' := [MatchSet.guessedCase, guessedPair twoGuesses.reverse twoEntries.reverse]
    (∃ r r' : EvaluationResult Binary64,
      (CaseTally.empty.addAll done).score .strict knowing.name = .ok r ∧
      (CaseTally.empty.addAll done').score .strict knowing.name = .ok r' ∧
      Named.names r.precisions = [string, number] ∧
      Named.names r'.precisions = [number, string] ∧ r.SameScores r') ∧
    (∃ r r' : EvaluationResult Binary64,
      EvaluationResult.ofPredictions .strict knowing.name twoGuesses twoEntries 0 = .ok r ∧
      EvaluationResult.ofPredictions .strict knowing.name twoGuesses.reverse twoEntries.reverse 0 =
        .ok r' ∧ r.SameScores r') ∧
    ∃ r r' : EvaluationResult Binary64,
      (knowingBench.evaluate world knowing.name sharedPlace []).outcome = .ok r ∧
      (knowingBench.evaluate world knowing.name sharedPlace.reverse []).outcome = .ok r' ∧
      Named.names r.precisions = [string, number] ∧
      Named.names r'.precisions = [number, string] ∧ r.SameScores r' := by
  intro world string number done done'
  obtain ⟨htally, hunit, hevaluate⟩ := evaluate_reordered (R := Binary64)
  have hpredictions : twoGuesses ~ twoGuesses.reverse := (reverse_perm _).symm
  have htruths : twoEntries ~ twoEntries.reverse := (reverse_perm _).symm
  have hps : (twoGuesses.map (·.key)).Nodup := by decide +kernel
  have hts : (twoEntries.map (·.key)).Nodup := by decide +kernel
  refine ⟨?_, ?_, ?_⟩
  · have hcase : (guessedPair twoGuesses twoEntries).IsReordering
        (guessedPair twoGuesses.reverse twoEntries.reverse) := ⟨hpredictions, htruths, hps, hts⟩
    have hswap : CompletedCase.Reorders done
        [MatchSet.guessedCase, guessedPair twoGuesses twoEntries] := .cases (.swap _ _ [])
    have hreorders : CompletedCase.Reorders done done' :=
      hswap.trans (.within hcase [MatchSet.guessedCase] [])
    obtain ⟨hsame, hscored⟩ := htally done done' hreorders .strict knowing.name
    have hnames : ((CaseTally.empty.addAll done).score .strict knowing.name).map
        (Named.names ·.precisions) = .ok [string, number] := by decide +kernel
    obtain ⟨r, hr, hlabels⟩ := exists_of_map_eq_ok hnames
    obtain ⟨r', hr'⟩ := (hscored (by decide +kernel) (by decide +kernel)).1 ⟨r, hr⟩
    have hlabels' : Named.names r'.precisions = [number, string] := by
      rw [CaseTally.scores_of_score hr']
      decide +kernel
    exact ⟨r, r', hr, hr', hlabels, hlabels', hsame r r' hr hr'⟩
  · obtain ⟨-, hsame⟩ := hunit _ _ _ _ hpredictions htruths hps hts
    have htotal : (EvaluationResult.ofPredictions .strict knowing.name twoGuesses twoEntries
        (0 : Binary64)).map (·.total) = .ok 2 := by decide +kernel
    have htotal' : (EvaluationResult.ofPredictions .strict knowing.name twoGuesses.reverse
        twoEntries.reverse (0 : Binary64)).map (·.total) = .ok 2 := by decide +kernel
    obtain ⟨r, hr, -⟩ := exists_of_map_eq_ok htotal
    obtain ⟨r', hr', -⟩ := exists_of_map_eq_ok htotal'
    exact ⟨r, r', hr, hr', hsame .strict knowing.name 0 0 r r' hr hr'⟩
  · have hnames : (knowingBench.evaluate world knowing.name sharedPlace []).outcome.map
        (Named.names ·.precisions) = .ok [string, number] := by decide +kernel
    have hnames' : (knowingBench.evaluate world knowing.name sharedPlace.reverse []).outcome.map
        (Named.names ·.precisions) = .ok [number, string] := by decide +kernel
    obtain ⟨r, hr, hlabels⟩ := exists_of_map_eq_ok hnames
    obtain ⟨r', hr', hlabels'⟩ := exists_of_map_eq_ok hnames'
    obtain ⟨_, _, ⟨_, a⟩, ⟨_, a'⟩, _, _, _, _, hfind, hfind', hcourse, hcourse', hcases, hcases',
      hsame⟩ := hevaluate Script Script _ _ _ _ _ _ _ _ _ _ r r' rfl hr hr'
    obtain ⟨-, rfl⟩ := Registration.mk.inj (Option.some.inj hfind)
    obtain ⟨-, rfl⟩ := Registration.mk.inj (Option.some.inj hfind')
    have hreorders := CompletedCase.reorders_of_perm knowing.predictionsFor
      (hcases ▸ hcases' ▸ (reverse_perm sharedPlace).symm) hcourse.predictions_of_script
      hcourse'.predictions_of_script
    exact ⟨r, r', hr, hr', hlabels, hlabels', hsame hreorders⟩

end Bench

end TypeBench
