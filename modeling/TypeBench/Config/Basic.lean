import TypeBench.Score.Policy
import TypeBench.TestCase.Source

/-!
# Configurations

A configuration names the approaches of an evaluation, in the order in which they are evaluated,
their options, the source of the test cases and the scoring policy.

## Main definitions

* `ApproachConfig`, `EvalConfig`: the configuration of an approach and of an evaluation.
* `ApproachConfig.check`, `EvalConfig.check`: reading both from a value.
* `ApproachConfig.isUnseeded`: a random approach without a seed.
-/

namespace TypeBench

/-- Options of an approach: the entries of a mapping, whose keys need not be texts. -/
abbrev Options := List (Value × Value)

/-- The kind of an approach and its options. -/
structure ApproachConfig where
  kind : Text
  options : Options

/-- The configuration of an evaluation. -/
structure EvalConfig where
  name : Text
  version : Text
  cases : CaseSourceConfig
  scoring : ScoringConfig
  approaches : Named ApproachConfig

namespace ApproachConfig

/-- The kind of the random approach. -/
def randomKind : Text := "random"

/-- The option that holds a seed. -/
def seedOption : Text := "seed"

/-- Whether an approach draws at random without a seed. -/
def isUnseeded (config : ApproachConfig) : Bool :=
  config.kind = randomKind && ((Value.get? seedOption config.options).getD .null).isNull

/-- The configuration of an approach, read from a mapping. -/
def check : Value → Checked ApproachConfig :=
  Field.record "ApproachConfig" fun all =>
    ApproachConfig.mk
      <$> Field.required "type" Field.nonEmptyText all
      <*> Value.fieldEntries <$> Field.withDefault "options" [] (Field.mapping Field.any) all

end ApproachConfig

namespace EvalConfig

/-- The name of the record in reports. -/
def recordName : String := "EvalConfig"

/-- The configuration of an evaluation, read from a mapping. -/
def check : Value → Checked EvalConfig :=
  Field.record recordName fun all =>
    EvalConfig.mk
      <$> Field.required "name" Field.nonEmptyText all
      <*> Field.required "version" Field.nonEmptyText all
      <*> Field.withDefault "test_cases" CaseSourceConfig.default CaseSourceConfig.check all
      <*> Field.withDefault "scoring" ⟨.lenient⟩ ScoringConfig.check all
      <*> Field.required "approaches" (Field.nonEmptyMapping ApproachConfig.check) all

end EvalConfig

end TypeBench
