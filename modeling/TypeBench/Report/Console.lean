import TypeBench.Number.Decimal
import TypeBench.Path
import TypeBench.Score.Comparison
import TypeBench.TestCase.Basic
import TypeBench.Text.Styled

/-!
# Results on a console

Results are shown as lines of text with styles. A console without styles is shown the same lines
with the styles taken out.

## Main definitions

* `Console.cases`, `Console.comparison`, `Console.typeMetrics`, `Console.predictions`,
  `Console.reportLocation`: the lines about test cases, results, predictions and reports.
-/

namespace TypeBench

namespace Console

/-! ### Parts of lines -/

/-- The style for a share: good from three quarters on, and fair from two fifths on. -/
def shareStyle (x : Binary64) : Style :=
  if Binary64.le (Binary64.ofRatio false 3 4) x then .green
  else if Binary64.le (Binary64.ofRatio false 2 5) x then .yellow
  else .red

/-- A horizontal line. -/
def rule (width : Nat) : Text := Text.fill width '─'

/-- The width of the rules around titles. -/
def ruleWidth : Nat := 72

/-- The number of cells of a bar. -/
def barWidth : Nat := 10

/-- A bar that is filled up to a share. -/
def bar (x : Binary64) : Text :=
  let filled := (x * (barWidth : Binary64)).round
  (shareStyle x).code ++ Text.fill filled.toNat '█' ++
    Text.styled [.dim] (Text.fill ((barWidth : Int) - filled).toNat '░')

/-- A time in milliseconds. -/
def milliseconds (seconds : Binary64) : Text := (seconds * 1000).fixed 2 ++ "ms"

/-- A line without text. -/
def blankLine : Text := []

/-- A title between rules. -/
def title (colour : Style) (t : Text) : List Text :=
  [Text.styled [colour] (rule ruleWidth), Text.styled [colour, .bold] ("  " ++ t),
    Text.styled [colour] (rule ruleWidth)]

/-- The width of a column that holds texts. -/
def columnWidth (least : Nat) (texts : List Text) : Nat :=
  (texts.map List.length).foldl max least

/-! ### Test cases -/

/-- The difficulty of a test case. -/
def difficultyText (case : TestCase) : Text :=
  match case.details with
  | some details => details.difficulty.name
  | none => "unknown"

/-- The line of a test case. -/
def caseLine (case : TestCase) : Text :=
  "  " ++ Text.styled [.dim] "-" ++ " " ++ case.name ++ " " ++
    Text.styled [.dim] ("(" ++ difficultyText case ++ ")")

/-- The lines about test cases. -/
def cases (all : List TestCase) : List Text :=
  [blankLine, Text.styled [.bold] ("Loaded " ++ Text.ofNat all.length ++ " test cases:")] ++
    all.map caseLine

/-! ### Comparison -/

/-- The headline of a comparison, as labels with values. -/
def summaryParts (summary : ComparisonSummary Binary64) : Option (List (Text × Text)) :=
  match summary.best, summary.fastest with
  | some best, some fastest =>
    some [("Best accuracy", best.approach ++ " (" ++ best.score.percent ++ ")"),
      ("Fastest", fastest.approach ++ " (" ++ milliseconds fastest.time ++ ")"),
      ("Scored predictions", Text.ofInt summary.total)]
  | _, _ => none

/-- A label with its value. -/
def labelledLine (width : Nat) (label value : Text) : Text :=
  "  " ++ Text.styled [.dim] (label.padRight width) ++ "  " ++ Text.styled [.white] value

/-- The lines of the headline. -/
def summaryLines (summary : ComparisonSummary Binary64) : List Text :=
  match summaryParts summary with
  | none => ["  " ++ Text.styled [.yellow] "No approach produced a result."]
  | some parts =>
    parts.map fun (label, value) => labelledLine (columnWidth 0 (parts.map (·.1))) label value

/-- The line of an approach in the table. -/
def rowLine (width : Nat) (row : ComparisonRow Binary64) : Text :=
  "  " ++ Text.styled [.white] (row.approach.padRight width) ++
    "  " ++ Text.styled [shareStyle row.accuracy] (row.accuracy.percent.padLeft 8) ++
    "  " ++ (Text.ofInt row.correct ++ "/" ++ Text.ofInt row.total).padLeft 9 ++
    "  " ++ Text.styled [.dim] ((milliseconds row.time).padLeft 10) ++
    "  " ++ bar row.accuracy

/-- The lines of the table. -/
def tableLines (rows : List (ComparisonRow Binary64)) : List Text :=
  if rows.isEmpty then []
  else
    let width := columnWidth 8 (rows.map (·.approach))
    let heading := Text.padRight width "Approach" ++ "  " ++ Text.padLeft 8 "Accuracy" ++ "  " ++
      Text.padLeft 9 "Correct" ++ "  " ++ Text.padLeft 10 "Time" ++ "  Bar"
    [blankLine, "  " ++ Text.styled [.dim] heading,
      "  " ++ Text.join "  " [rule width, rule 8, rule 9, rule 10, rule barWidth]] ++
      rows.map (rowLine width)

/-- The lines about approaches that failed. -/
def failedLines (failed : List Text) : List Text :=
  if failed.isEmpty then []
  else
    [blankLine,
      "  " ++ Text.styled [.red, .bold] "Failed approaches:" ++ " " ++ Text.join ", " failed]

/-- The lines about a comparison. -/
def comparison (c : ResultComparison Binary64) (failed : List Text) : List Text :=
  [blankLine] ++ title .cyan "Type Inference Evaluation Results" ++ [blankLine] ++
    summaryLines c.summary ++ tableLines c.rows ++ failedLines failed

/-! ### Metrics of types -/

/-- A share in a column. -/
def shareCell (width : Nat) (x : Binary64) : Text :=
  "  " ++ Text.styled [shareStyle x] (x.percent.padLeft width)

/-- The line of a label. -/
def labelLine (result : EvaluationResult Binary64) (width : Nat) (label : Text) : Text :=
  "  " ++ Text.styled [.white] (label.padRight width) ++
    shareCell 9 (result.precisions.valueOf label) ++ shareCell 8 (result.recalls.valueOf label) ++
    shareCell 8 (result.means.valueOf label)

/-- The lines of the table of labels. -/
def labelLines (result : EvaluationResult Binary64) (labels : List Text) : List Text :=
  let width := columnWidth 4 labels
  let heading := Text.padRight width "Type" ++ "  " ++ Text.padLeft 9 "Precision" ++ "  " ++
    Text.padLeft 8 "Recall" ++ "  " ++ Text.padLeft 8 "F1"
  [blankLine, "  " ++ Text.styled [.dim] heading,
    "  " ++ Text.join "  " [rule width, rule 9, rule 8, rule 8]] ++
    labels.map (labelLine result width)

/-- The lines about further metrics. -/
def additionalLines (additional : LabelMap Binary64) : List Text :=
  if additional.isEmpty then []
  else blankLine :: additional.map fun (key, x) =>
    "  " ++ Text.styled [.dim] (key ++ ": " ++ x.general)

/-- The line about the accuracy of a result. -/
def accuracyLine (result : EvaluationResult Binary64) : Text :=
  "  " ++ Text.styled [.dim]
    ("Correct " ++ Text.ofNat result.correct ++ "/" ++ Text.ofNat result.total ++
      "  ·  accuracy " ++ result.accuracy.percent)

/-- The lines about the metrics of a result. -/
def typeMetrics (result : EvaluationResult Binary64) : List Text :=
  let labels := (Named.names (result.precisions ++ result.recalls)).eraseDups
  [blankLine] ++ title .blue result.approach ++ [accuracyLine result] ++
    if labels.isEmpty then ["  " ++ Text.styled [.yellow] "No scored predictions."]
    else labelLines result labels ++ additionalLines result.additional

/-! ### Predictions and reports -/

/-- Hints between commas, or a dash. -/
def hintsText (hints : List Text) : Text :=
  let joined := Text.join ", " hints
  if joined.isEmpty then "-" else joined

/-- The lines of a prediction. -/
def predictionLines (p : TypePrediction) : List Text :=
  ["  " ++ Text.styled [.cyan] p.identifier ++ " " ++
      Text.styled [.dim]
        ("@" ++ Text.ofNat p.position.line ++ ":" ++ Text.ofNat p.position.column) ++
      " → " ++ Text.styled [.white] p.label,
    "    " ++ Text.styled [.dim]
      ("scope=" ++ p.context.scope ++ "  context=" ++ p.context.context ++ "  hints=" ++
        hintsText p.context.hints)]

/-- The first items of a list up to a limit; a limit below zero leaves out as many at the end. -/
def upTo {α : Type} (limit : Int) (items : List α) : List α :=
  if 0 ≤ limit then items.take limit.toNat else items.take (items.length - limit.natAbs)

/-- The number of predictions that are shown if nothing else is asked. -/
def defaultLimit : Int := 5

/-- The lines about the first predictions. -/
def predictions (all : List TypePrediction) (limit : Int) : List Text :=
  [blankLine, Text.styled [.bold] ("Sample predictions (first " ++ Text.ofInt limit ++ "):")] ++
    (upTo limit all).flatMap predictionLines ++
    if all.isEmpty then ["  " ++ Text.styled [.dim] "(none)"] else []

/-- The lines about the place of a report. -/
def reportLocation (path : Path) : List Text :=
  [blankLine, "  " ++ Text.styled [.dim] "Report" ++ "  " ++ Text.styled [.white] path.text,
    blankLine]

/-! ### Printing -/

/-- A line as it is printed. -/
def printed (hasStyles : Bool) (line : Text) : Text :=
  (if hasStyles then line else line.withoutStyles) ++ "\n"

/-- Lines as they are printed. -/
def output (hasStyles : Bool) (lines : List Text) : Text :=
  lines.flatMap (printed hasStyles)

end Console

end TypeBench
