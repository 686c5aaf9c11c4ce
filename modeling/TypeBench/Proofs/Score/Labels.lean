import TypeBench.Proofs.Score.Acceptance
import TypeBench.Score.Metrics

/-!
# Scores and labels

Scores are computed from the labels of a matching. Identifiers and places decide which prediction
meets which entry, and after that nothing looks at them: matchings of the same labels have the same
scores, label by label and in the same order.

## Main definitions

* `MatchSet.SameLabels`: matchings of the same labels.
* `EvaluationResult.withPredictions`: a result that lists other predictions.

## Main results

* `MatchSet.SameLabels.scores_eq`: matchings of the same labels have the same scores.
* `EvaluationResult.accept_withPredictions`: the predictions of a result do not decide its bounds.
* `MatchSet.SameLabels.result_eq`: they are accepted or refused together.
-/

namespace TypeBench

/-- The predicted label of a match and the verified one. -/
def TypeMatch.labels (x : TypeMatch) : Text × Text := (x.prediction.label, x.truth.label)

namespace MatchSet

/-- Matchings of the same labels, in the same order. -/
structure SameLabels (a b : MatchSet) : Prop where
  found : a.found.map TypeMatch.labels = b.found.map TypeMatch.labels
  predicted : a.unmatchedPredictions.map (·.label) = b.unmatchedPredictions.map (·.label)
  verified : a.unmatchedTruths.map (·.label) = b.unmatchedTruths.map (·.label)

/-! ### What is read of a matching -/

theorem correctCount_eq_countP (m : MatchSet) :
    m.correctCount = (m.found.map TypeMatch.labels).countP fun l => l.1 = l.2 := by
  rw [correctCount, List.countP_map]
  rfl

theorem correctLabels_eq_filter (m : MatchSet) :
    m.correctLabels = ((m.found.map TypeMatch.labels).filter fun l => l.1 = l.2).map (·.2) := by
  rw [correctLabels, List.filter_map, List.map_map]
  rfl

theorem foundLabels_eq_map (m : MatchSet) :
    m.found.map (·.prediction.label) = (m.found.map TypeMatch.labels).map (·.1) := by
  rw [List.map_map]
  rfl

namespace SameLabels

variable {a b : MatchSet}

theorem found_length (h : SameLabels a b) : a.found.length = b.found.length := by
  simpa using congrArg List.length h.found

theorem unmatchedPredictions_length (h : SameLabels a b) :
    a.unmatchedPredictions.length = b.unmatchedPredictions.length := by
  simpa using congrArg List.length h.predicted

theorem unmatchedTruths_length (h : SameLabels a b) :
    a.unmatchedTruths.length = b.unmatchedTruths.length := by
  simpa using congrArg List.length h.verified

theorem correctCount_eq (h : SameLabels a b) : a.correctCount = b.correctCount := by
  rw [correctCount_eq_countP, correctCount_eq_countP, h.found]

theorem correctLabels_eq (h : SameLabels a b) : a.correctLabels = b.correctLabels := by
  rw [correctLabels_eq_filter, correctLabels_eq_filter, h.found]

theorem scoredLabels_eq (h : SameLabels a b) (policy : ScoringPolicy) :
    a.scoredLabels policy = b.scoredLabels policy := by
  have hfound : a.found.map (·.prediction.label) = b.found.map (·.prediction.label) := by
    rw [foundLabels_eq_map, foundLabels_eq_map, h.found]
  cases policy with
  | lenient => simp only [scoredLabels, hfound]
  | strict => simp only [scoredLabels, hfound, h.predicted]

theorem scoredCount_eq (h : SameLabels a b) (policy : ScoringPolicy) :
    a.scoredCount policy = b.scoredCount policy := by
  cases policy with
  | lenient => exact h.found_length
  | strict => simp only [scoredCount, h.found_length, h.unmatchedPredictions_length]

end SameLabels

end MatchSet

/-! ### Scores -/

variable {R : Type} [Quantity R]

namespace EvaluationResult

/-- A result that lists other predictions. -/
def withPredictions (predictions : List TypePrediction) (r : EvaluationResult R) :
    EvaluationResult R :=
  { r with predictions := predictions }

/-- The predictions of a result do not decide whether it keeps its bounds. -/
theorem accept_withPredictions (r : EvaluationResult R) (predictions : List TypePrediction) :
    (r.withPredictions predictions).accept = r.accept.map (withPredictions predictions) :=
  accept_map rfl rfl rfl

end EvaluationResult

namespace MatchSet.SameLabels

variable {a b : MatchSet} {predictions others : List TypePrediction} {ts us : List GroundTruth}

/-- Matchings of the same labels have the same scores. -/
theorem scores_eq (h : SameLabels a b) (htruths : ts.map (·.label) = us.map (·.label))
    (policy : ScoringPolicy) (approach : Text) (time : R) :
    a.scores policy approach predictions ts time =
      (b.scores policy approach others us time).withPredictions predictions := by
  have hcount : ts.length = us.length := by simpa using congrArg List.length htruths
  have hprecisions : a.precisions R policy = b.precisions R policy := by
    rw [precisions_eq, precisions_eq, h.correctLabels_eq, h.scoredLabels_eq]
  have hrecalls : a.recalls R ts = b.recalls R us := by
    rw [recalls, recalls, h.correctLabels_eq, htruths]
  have haccuracy : a.accuracy R policy = b.accuracy R policy := by
    rw [accuracy, accuracy, h.correctCount_eq, h.scoredCount_eq]
  have hadditional : a.additional R ts = b.additional R us := by
    rw [additional, additional, coverage, coverage, h.unmatchedPredictions_length,
      h.unmatchedTruths_length, hcount]
  rw [scores, scores, hprecisions, hrecalls, haccuracy, hadditional, h.correctCount_eq,
    h.scoredCount_eq]
  rfl

/-- Matchings of the same labels have the same result, but for the predictions that it lists. -/
theorem result_eq (h : SameLabels a b) (htruths : ts.map (·.label) = us.map (·.label))
    (policy : ScoringPolicy) (approach : Text) (time : R) :
    a.result policy approach predictions ts time =
      (b.result policy approach others us time).map (.withPredictions predictions) := by
  rw [result, h.scores_eq htruths, EvaluationResult.accept_withPredictions]
  rfl

end MatchSet.SameLabels

end TypeBench
