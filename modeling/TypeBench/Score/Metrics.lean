import TypeBench.Score.Matching
import TypeBench.Score.Policy
import TypeBench.Score.Result

/-!
# Metrics

Accuracy, and precision, recall and their harmonic mean for every type label, over a matching. A
share of nothing is zero.

## Main definitions

* `MatchSet.scoredLabels`: the predicted labels that a policy counts.
* `MatchSet.correctPredictedLabels`, `MatchSet.correctLabels`: the labels of the correct matches.
* `MatchSet.accuracy`, `MatchSet.precisions`, `MatchSet.recalls`: shares of correct matches.
* `LabelMap.harmonicMean`: the harmonic mean of two maps.
* `MatchSet.result`: the result of an approach.
-/

namespace TypeBench

/-- The labels of a list, each with its share of correct ones. The labels come in the order of
their first appearance. -/
def LabelMap.shares (R : Type) [Quantity R] (correct labels : List Text) : LabelMap R :=
  labels.eraseDups.map fun label =>
    (label, Quantity.ratio (correct.count label) (labels.count label))

/-- The harmonic mean of two quantities, zero if they add up to zero. -/
def Quantity.harmonicMean {R : Type} [Quantity R] (x y : R) : R :=
  if Quantity.isZero (x + y) then Quantity.zero
  else ((2 : Nat) : R) * x * y / (x + y)

/-- The harmonic mean of two maps, label by label: the labels of the first map come first. -/
def LabelMap.harmonicMean {R : Type} [Quantity R] (precisions recalls : LabelMap R) : LabelMap R :=
  (Named.names (precisions ++ recalls)).eraseDups.map fun label =>
    (label, Quantity.harmonicMean (precisions.valueOf label) (recalls.valueOf label))

namespace MatchSet

/-- The predicted labels that count: those of the matches, and under the strict policy those of
the unmatched predictions. -/
def scoredLabels (policy : ScoringPolicy) (m : MatchSet) : List Text :=
  m.found.map (·.prediction.label) ++
    match policy with
    | .lenient => []
    | .strict => m.unmatchedPredictions.map (·.label)

/-- The number of predictions that count. -/
def scoredCount (policy : ScoringPolicy) (m : MatchSet) : Nat :=
  match policy with
  | .lenient => m.found.length
  | .strict => m.found.length + m.unmatchedPredictions.length

/-- The predicted labels of the correct matches. -/
def correctPredictedLabels (m : MatchSet) : List Text :=
  (m.found.filter TypeMatch.isCorrect).map (·.prediction.label)

/-- The verified labels of the correct matches. -/
def correctLabels (m : MatchSet) : List Text :=
  (m.found.filter TypeMatch.isCorrect).map (·.truth.label)

/-- The predicted label of a correct match is the verified one, so both count the same. -/
theorem correctPredictedLabels_eq (m : MatchSet) : m.correctPredictedLabels = m.correctLabels := by
  refine List.map_congr_left fun x hx => ?_
  have hcorrect : x.isCorrect = true := (List.mem_filter.1 hx).2
  exact of_decide_eq_true hcorrect

variable (R : Type) [Quantity R]

/-- The share of correct matches among the predictions that count. -/
def accuracy (policy : ScoringPolicy) (m : MatchSet) : R :=
  Quantity.ratio m.correctCount (m.scoredCount policy)

/-- For each predicted label, the share of its predictions that are correct. -/
def precisions (policy : ScoringPolicy) (m : MatchSet) : LabelMap R :=
  LabelMap.shares R m.correctPredictedLabels (m.scoredLabels policy)

theorem precisions_eq (policy : ScoringPolicy) (m : MatchSet) :
    m.precisions R policy = LabelMap.shares R m.correctLabels (m.scoredLabels policy) := by
  rw [precisions, correctPredictedLabels_eq]

/-- For each verified label, the share of its entries that were predicted correctly; entries
without a prediction count too. -/
def recalls (m : MatchSet) (truths : List GroundTruth) : LabelMap R :=
  LabelMap.shares R m.correctLabels (truths.map (·.label))

/-- The share of the ground truth that has a prediction. -/
def coverage (m : MatchSet) (truths : List GroundTruth) : R :=
  Quantity.ratio (truths.length - m.unmatchedTruths.length) truths.length

/-- The metrics beside accuracy and the maps. -/
def additional (m : MatchSet) (truths : List GroundTruth) : LabelMap R :=
  [("unmatched_predictions", (m.unmatchedPredictions.length : R)),
    ("unmatched_ground_truth", (m.unmatchedTruths.length : R)),
    ("coverage", m.coverage R truths)]

variable {R}

/-- The scores of an approach, before its bounds are looked at. -/
def scores (m : MatchSet) (policy : ScoringPolicy) (approach : Text)
    (predictions : List TypePrediction) (truths : List GroundTruth) (time : R) :
    EvaluationResult R where
  approach := approach
  predictions := predictions
  accuracy := m.accuracy R policy
  precisions := m.precisions R policy
  recalls := m.recalls R truths
  means := LabelMap.harmonicMean (m.precisions R policy) (m.recalls R truths)
  total := m.scoredCount policy
  correct := m.correctCount
  time := time
  additional := m.additional R truths

/-- The result of an approach over test cases that are already matched. -/
def result (m : MatchSet) (policy : ScoringPolicy) (approach : Text)
    (predictions : List TypePrediction) (truths : List GroundTruth) (time : R) :
    Except Report (EvaluationResult R) :=
  (m.scores policy approach predictions truths time).accept

end MatchSet

/-- The result of an approach over one source unit. -/
def EvaluationResult.ofPredictions {R : Type} [Quantity R] (policy : ScoringPolicy)
    (approach : Text) (predictions : List TypePrediction) (truths : List GroundTruth) (time : R) :
    Except Report (EvaluationResult R) :=
  (MatchSet.ofPredictions predictions truths).result policy approach predictions truths time

end TypeBench
