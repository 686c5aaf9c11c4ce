import TypeBench.Position

/-!
# Test cases

A test case is an untyped source unit with the verified types of some of its identifiers.

## Main definitions

* `GroundTruth`: the type of one identifier at one place.
* `CaseMetadata`, `Difficulty`: what a test case is about.
* `TestCase`: source and ground truth.
* `TestCase.check`: reading a test case from a value.
-/

namespace TypeBench

/-- The verified type of an identifier at a place. -/
structure GroundTruth where
  identifier : Text
  label : Text
  position : SourcePosition
  scope : Text
  deriving DecidableEq

/-- How hard a test case is. -/
inductive Difficulty where
  | easy
  | medium
  | hard
  deriving DecidableEq

/-- The names of the difficulties. -/
def Difficulty.names : List (String × Difficulty) :=
  [("easy", .easy), ("medium", .medium), ("hard", .hard)]

/-- The name of a difficulty. -/
def Difficulty.name : Difficulty → String
  | easy => "easy"
  | medium => "medium"
  | hard => "hard"

/-- What a test case is about. -/
structure CaseMetadata where
  category : Text
  difficulty : Difficulty
  tags : List Text
  description : Option Text
  deriving DecidableEq

/-- A source unit with the types of its identifiers. -/
structure TestCase where
  id : Text
  name : Text
  source : Text
  truths : List GroundTruth
  details : Option CaseMetadata
  deriving DecidableEq

/-- An entry of the ground truth, read from a mapping. -/
def GroundTruth.check : Value → Checked GroundTruth :=
  Field.record "GroundTruthType" fun all =>
    GroundTruth.mk
      <$> Field.required "identifier" Field.nonEmptyText all
      <*> Field.required "actual_type" Field.nonEmptyText all
      <*> Field.required "position" SourcePosition.check all
      <*> Field.required "scope" Field.text all

/-- The metadata of a test case, read from a mapping. -/
def CaseMetadata.check : Value → Checked CaseMetadata :=
  Field.record "TestCaseMetadata" fun all =>
    CaseMetadata.mk
      <$> Field.required "category" Field.text all
      <*> Field.required "difficulty" (Field.literal Difficulty.names) all
      <*> Field.withDefault "tags" [] (Field.list Field.text) all
      <*> Field.withDefault "description" none (Field.optional Field.text) all

/-- A test case, read from a mapping. -/
def TestCase.check : Value → Checked TestCase :=
  Field.record "TestCase" fun all =>
    TestCase.mk
      <$> Field.required "id" Field.nonEmptyText all
      <*> Field.required "name" Field.text all
      <*> Field.required "source_code" Field.text all
      <*> Field.withDefault "ground_truth" [] (Field.list GroundTruth.check) all
      <*> Field.withDefault "metadata" none (Field.optional CaseMetadata.check) all

end TypeBench
