import TypeBench.Validation.Fields

/-!
# Scoring policies

## Main definitions

* `ScoringPolicy`: how a prediction without ground truth counts.
* `ScoringPolicy.ofValue?`: the policy whose name a value is.
-/

namespace TypeBench

/-- How a prediction without ground truth counts: not at all, or as a wrong one. -/
inductive ScoringPolicy where
  | lenient
  | strict
  deriving DecidableEq

namespace ScoringPolicy

/-- The names of the policies. -/
def names : List (String × ScoringPolicy) :=
  [("lenient", .lenient), ("strict", .strict)]

/-- The name of a policy. -/
def name : ScoringPolicy → Text
  | lenient => "lenient"
  | strict => "strict"

/-- The policy whose name a value is. -/
def ofValue? : Value → Option ScoringPolicy
  | .text name => (names.find? fun choice => Text.ofString choice.1 = name).map (·.2)
  | _ => none

end ScoringPolicy

/-- The part of a configuration about scoring. -/
structure ScoringConfig where
  policy : ScoringPolicy
  deriving DecidableEq

/-- The part about scoring, read from a mapping. -/
def ScoringConfig.check : Value → Checked ScoringConfig :=
  Field.record "ScoringConfig" fun all =>
    ScoringConfig.mk
      <$> Field.withDefault "policy" .lenient (Field.member ScoringPolicy.names) all

end TypeBench
