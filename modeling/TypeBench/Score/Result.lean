import TypeBench.Prediction

/-!
# Results of an evaluation

A result holds the scores of one approach over the test cases of one evaluation. Ratios and times
are quantities of any type.

## Main definitions

* `EvaluationResult`: the scores of an approach with its predictions and its time.
* `EvaluationResult.accept`: a result that keeps the bounds, or a report of those it breaks.
* `EvaluationResult.check`: reading a result from a value.
-/

namespace TypeBench

/-- Quantities of type labels, in order. -/
abbrev LabelMap (R : Type) := Named R

/-- The quantity of a label; a label without one has zero. -/
def LabelMap.valueOf {R : Type} [Quantity R] (map : LabelMap R) (label : Text) : R :=
  (map.lookup label).getD Quantity.zero

/-- The scored outcome of one approach. The total counts the scored predictions, and the time is
that of predicting alone. -/
structure EvaluationResult (R : Type) where
  approach : Text
  predictions : List TypePrediction
  accuracy : R
  precisions : LabelMap R
  recalls : LabelMap R
  /-- The harmonic means of precision and recall. -/
  means : LabelMap R
  total : Nat
  correct : Nat
  time : R
  additional : LabelMap R

namespace EvaluationResult

/-- The name of the record in reports. -/
def recordName : String := "EvaluationResult"

/-- The result with the bounds of its fields looked at. -/
def bounded {R : Type} [Quantity R] (result : EvaluationResult R) : Checked (EvaluationResult R) :=
  (fun _ _ _ => result)
    <$> (Field.nonEmptyText (.text result.approach)).within (.key "approach_name")
    <*> (Field.inUnitInterval result.accuracy).within (.key "accuracy")
    <*> (Field.notNegative result.time).within (.key "execution_time_seconds")

/-- A result that keeps the bounds of its fields, or a report of those it breaks. -/
def accept {R : Type} [Quantity R] (result : EvaluationResult R) :
    Except Report (EvaluationResult R) :=
  result.bounded.report recordName

/-- A mapping from labels to numbers. -/
def labelMap : Value → Checked (LabelMap Binary64) :=
  Field.mapping Field.number

/-- A result, read from a mapping. -/
def check : Value → Checked (EvaluationResult Binary64) :=
  Field.record recordName fun all =>
    EvaluationResult.mk
      <$> Field.required "approach_name" Field.nonEmptyText all
      <*> Field.required "predictions" (Field.list TypePrediction.check) all
      <*> Field.required "accuracy" Field.unitInterval all
      <*> Field.required "precision_by_type" labelMap all
      <*> Field.required "recall_by_type" labelMap all
      <*> Field.required "f1_score_by_type" labelMap all
      <*> Field.required "total_predictions" (Field.integerAtLeast 0) all
      <*> Field.required "correct_predictions" (Field.integerAtLeast 0) all
      <*> Field.required "execution_time_seconds" Field.nonNegative all
      <*> Field.withDefault "additional_metrics" [] labelMap all

end EvaluationResult

end TypeBench
