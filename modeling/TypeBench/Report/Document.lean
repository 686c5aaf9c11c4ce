import TypeBench.Calendar.Basic
import TypeBench.Json.Writer
import TypeBench.Path
import TypeBench.Score.Comparison
import TypeBench.Score.Policy

/-!
# The report of an evaluation

## Main definitions

* `EvaluationReport`: what a report is about.
* `EvaluationReport.document`, `EvaluationReport.text`: the report as a document and as a text.
* `EvaluationReport.path`: the place of a report in a directory.
-/

namespace TypeBench

/-- What a report is about. -/
structure EvaluationReport where
  name : Text
  version : Text
  policy : ScoringPolicy
  results : Named (EvaluationResult Binary64)
  comparison : ResultComparison Binary64
  generatedAt : Timestamp

namespace EvaluationReport

/-- The version of the layout of reports. -/
def schemaVersion : Text := "1"

/-- The name of the tool in reports. -/
def toolName : Text := "ti-eval"

/-- The version of the tool in reports. -/
def toolVersion : Text := "0.1.0"

/-- A map from labels as an object. -/
def labelMap (map : LabelMap Binary64) : Json :=
  .object (map.map fun (label, x) => (label, .float x))

/-- A part of a document, or null. -/
def orNull {α : Type} (f : α → Json) : Option α → Json
  | some a => f a
  | none => .null

/-- The best approach. -/
def score (s : ApproachScore Binary64) : Json :=
  .ofMembers [("approach", s.approach), ("score", .float s.score)]

/-- The fastest approach. -/
def timing (s : ApproachTiming Binary64) : Json :=
  .ofMembers [("approach", s.approach), ("time_seconds", .float s.time)]

/-- A row of the comparison. -/
def row (r : ComparisonRow Binary64) : Json :=
  .ofMembers [
    ("approach", r.approach),
    ("accuracy", .float r.accuracy),
    ("execution_time_seconds", .float r.time),
    ("correct_predictions", .int r.correct),
    ("total_predictions", .int r.total)]

/-- The comparison. -/
def comparisonDocument (c : ResultComparison Binary64) : Json :=
  .ofMembers [
    ("summary", .ofMembers [
      ("best_accuracy", orNull score c.summary.best),
      ("fastest_execution", orNull timing c.summary.fastest),
      ("total_test_cases", .int c.summary.total)]),
    ("detailed_comparison", .array (c.rows.map row))]

/-- A result; of its predictions only the number is told. -/
def resultDocument (r : EvaluationResult Binary64) : Json :=
  .ofMembers [
    ("approach_name", r.approach),
    ("accuracy", .float r.accuracy),
    ("correct_predictions", .int r.correct),
    ("total_predictions", .int r.total),
    ("raw_predictions", .int r.predictions.length),
    ("execution_time_seconds", .float r.time),
    ("precision_by_type", labelMap r.precisions),
    ("recall_by_type", labelMap r.recalls),
    ("f1_score_by_type", labelMap r.means),
    ("additional_metrics", labelMap r.additional)]

/-- The report as a document. -/
def document (report : EvaluationReport) : Json :=
  .ofMembers [
    ("schema_version", schemaVersion),
    ("generated_at", report.generatedAt.text 'T'),
    ("tool", .ofMembers [("name", toolName), ("version", toolVersion)]),
    ("config", .ofMembers [
      ("name", report.name),
      ("version", report.version),
      ("scoring_policy", report.policy.name)]),
    ("comparison", comparisonDocument report.comparison),
    ("results", .array (report.results.map fun (_, result) => resultDocument result))]

/-- The report as a text. -/
def text (report : EvaluationReport) : Text := report.document.indented

/-- The name of the file of a report: the name of the configuration and the day. -/
def fileName (name : Text) (generatedAt : Timestamp) : Text :=
  name ++ "_" ++ generatedAt.date.compact ++ ".json"

/-- The place of a report in a directory. -/
def path (directory : Path) (name : Text) (generatedAt : Timestamp) : Path :=
  directory.join (Path.ofText (fileName name generatedAt))

end EvaluationReport

end TypeBench
