import TypeBench.Score.Result

/-!
# Comparison of results

Results of several approaches are ranked by accuracy. The best and the fastest approach are named
first; of equals, the one that comes first.

## Main definitions

* `ComparisonRow`, `ComparisonSummary`, `ResultComparison`: the table and its headline.
* `ResultComparison.ofResults`: the comparison of named results.
* `ResultComparison.check` and its parts: reading a comparison from a value.
-/

namespace TypeBench

/-- An approach and its accuracy. -/
structure ApproachScore (R : Type) where
  approach : Text
  score : R

/-- An approach and its time. -/
structure ApproachTiming (R : Type) where
  approach : Text
  time : R

/-- One approach in a comparison. -/
structure ComparisonRow (R : Type) where
  approach : Text
  accuracy : R
  time : R
  correct : Int
  total : Int

/-- The headline of a comparison. -/
structure ComparisonSummary (R : Type) where
  best : Option (ApproachScore R)
  fastest : Option (ApproachTiming R)
  total : Int

/-- A headline and the ranked rows. -/
structure ResultComparison (R : Type) where
  summary : ComparisonSummary R
  rows : List (ComparisonRow R)

namespace ComparisonRow

variable {R : Type} [Quantity R]

/-- The row of a named result. -/
def ofResult (name : Text) (result : EvaluationResult R) : ComparisonRow R :=
  ⟨name, result.accuracy, result.time, result.correct, result.total⟩

/-- The row that a search for a preferred one keeps: a later row has to be better. -/
def prefer (better : ComparisonRow R → ComparisonRow R → Bool) :
    Option (ComparisonRow R) → ComparisonRow R → Option (ComparisonRow R)
  | none, row => some row
  | some kept, row => if better row kept then some row else some kept

/-- The first of the preferred rows. -/
def first? (better : ComparisonRow R → ComparisonRow R → Bool) (rows : List (ComparisonRow R)) :
    Option (ComparisonRow R) :=
  rows.foldl (prefer better) none

/-- Whether a row is more accurate than another one. -/
def moreAccurate (a b : ComparisonRow R) : Bool := Quantity.lt b.accuracy a.accuracy

/-- Whether a row is faster than another one. -/
def faster (a b : ComparisonRow R) : Bool := Quantity.lt a.time b.time

/-- Rows by falling accuracy; rows of one accuracy keep their order. -/
def ranked (rows : List (ComparisonRow R)) : List (ComparisonRow R) :=
  rows.mergeSort fun a b => !moreAccurate b a

end ComparisonRow

namespace ResultComparison

variable {R : Type} [Quantity R]

/-- The comparison of rows. -/
def ofRows (rows : List (ComparisonRow R)) : ResultComparison R where
  summary :=
    { best := (ComparisonRow.first? ComparisonRow.moreAccurate rows).map fun row =>
        ⟨row.approach, row.accuracy⟩
      fastest := (ComparisonRow.first? ComparisonRow.faster rows).map fun row =>
        ⟨row.approach, row.time⟩
      total := (rows.head?.map (·.total)).getD 0 }
  rows := ComparisonRow.ranked rows

/-- The comparison of named results. -/
def ofResults (results : Named (EvaluationResult R)) : ResultComparison R :=
  ofRows (results.map fun (name, result) => ComparisonRow.ofResult name result)

end ResultComparison

/-! ### Reading -/

/-- An approach and its accuracy, read from a mapping. -/
def ApproachScore.check : Value → Checked (ApproachScore Binary64) :=
  Field.record "ApproachScore" fun all =>
    ApproachScore.mk
      <$> Field.required "approach" Field.text all
      <*> Field.required "score" Field.number all

/-- An approach and its time, read from a mapping. -/
def ApproachTiming.check : Value → Checked (ApproachTiming Binary64) :=
  Field.record "ApproachTiming" fun all =>
    ApproachTiming.mk
      <$> Field.required "approach" Field.text all
      <*> Field.required "time_seconds" Field.number all

/-- A row, read from a mapping. -/
def ComparisonRow.check : Value → Checked (ComparisonRow Binary64) :=
  Field.record "ApproachComparison" fun all =>
    ComparisonRow.mk
      <$> Field.required "approach" Field.text all
      <*> Field.required "accuracy" Field.number all
      <*> Field.required "execution_time_seconds" Field.number all
      <*> Field.required "correct_predictions" Field.integer all
      <*> Field.required "total_predictions" Field.integer all

/-- A headline, read from a mapping. -/
def ComparisonSummary.check : Value → Checked (ComparisonSummary Binary64) :=
  Field.record "ComparisonSummary" fun all =>
    ComparisonSummary.mk
      <$> Field.required "best_accuracy" (Field.optional ApproachScore.check) all
      <*> Field.required "fastest_execution" (Field.optional ApproachTiming.check) all
      <*> Field.required "total_test_cases" Field.integer all

/-- A comparison, read from a mapping. -/
def ResultComparison.check : Value → Checked (ResultComparison Binary64) :=
  Field.record "ResultComparison" fun all =>
    ResultComparison.mk
      <$> Field.required "summary" ComparisonSummary.check all
      <*> Field.required "detailed_comparison" (Field.list ComparisonRow.check) all

end TypeBench
