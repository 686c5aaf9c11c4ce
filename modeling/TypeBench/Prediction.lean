import TypeBench.Occurrence.Basic

/-!
# Predictions

An approach predicts a type label for an identifier at a place, and keeps what it saw around it.

## Main definitions

* `PredictionContext`, `TypePrediction`: the surroundings of an identifier, and a prediction.
* `TypePrediction.ofOccurrence`: the prediction of a label for an occurrence.
* `PredictionContext.check`, `TypePrediction.check`: reading both from a value.
-/

namespace TypeBench

/-- The surroundings of an identifier. -/
structure PredictionContext where
  scope : Text
  context : Text
  hints : List Text
  usages : List Text
  deriving DecidableEq

/-- A label predicted for an identifier at a place. -/
structure TypePrediction where
  identifier : Text
  label : Text
  position : SourcePosition
  context : PredictionContext
  deriving DecidableEq

/-- The surroundings, read from a mapping. -/
def PredictionContext.check : Value → Checked PredictionContext :=
  Field.record "PredictionContext" fun all =>
    PredictionContext.mk
      <$> Field.required "scope" Field.text all
      <*> Field.required "syntactic_context" Field.text all
      <*> Field.withDefault "semantic_hints" [] (Field.list Field.text) all
      <*> Field.withDefault "usage_patterns" [] (Field.list Field.text) all

namespace TypePrediction

/-- A prediction, read from a mapping. -/
def check : Value → Checked TypePrediction :=
  Field.record "TypePrediction" fun all =>
    TypePrediction.mk
      <$> Field.required "identifier" Field.nonEmptyText all
      <*> Field.required "predicted_type" Field.text all
      <*> Field.required "position" SourcePosition.check all
      <*> Field.required "context" PredictionContext.check all

/-- The prediction of a label for an occurrence. -/
def ofOccurrence (label : Text) (o : Occurrence) : TypePrediction where
  identifier := o.name
  label := label
  position := o.position
  context := ⟨o.scope, o.context, o.hints, o.usages⟩

end TypePrediction

end TypeBench
