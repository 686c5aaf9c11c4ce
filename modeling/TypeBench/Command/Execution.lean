import TypeBench.Approach.Baseline
import TypeBench.Command.Arguments
import TypeBench.Command.Watch
import TypeBench.Config.Loading
import TypeBench.Evaluation.Bench
import TypeBench.Report.Document
import TypeBench.TestCase.Loading

/-!
# Execution of commands

One command loads a configuration and its test cases, evaluates the approaches, writes a report and
prints the results. The other one evaluates the baseline on the built-in test cases.

## Main definitions

* `Surroundings`: what a command finds.
* `Command.evaluateConfig`, `Command.evaluateBaseline`: the two commands.
* `Command.execute`: the exit code of a command, and what it leaves.
* `Command.executeArguments`: the same for a list of arguments.
-/

namespace TypeBench

/-- What a command finds: files, variables, readers of other languages, a clock, a generator, the
moment, whether the console has styles, and how deep a document may be nested that it reads. -/
structure Surroundings where
  files : FileTree
  environment : Environment
  yaml : YamlReader
  parser : SourceParser
  clock : Clock Binary64
  entropy : Twister
  now : Timestamp
  hasStyles : Bool
  maxDepth : Nat := Json.usualDepth

namespace Command

open CommandStep

/-! ### Parts of commands -/

/-- What is said about an unknown format of the log. -/
def unknownFormatText (name : Text) : Text :=
  "Invalid log format: " ++ name.quoted ++ ". Must be 'console' or 'json'."

/-- Settles the format of the log by its name. -/
def chooseLogFormat (w : Surroundings) (name : Text) : CommandStep Unit :=
  match LogFormat.ofName? name with
  | some format => setLogFormat format
  | none => do
    print w.hasStyles (unknownFormatText name)
    throw (.exit 1)

/-- Loads the configuration at a path. An error of the bench is explained at once and ends the
command; it is a failure of its own if the explanation cannot be printed. -/
def loadConfig (w : Surroundings) (path : Path) : CommandStep EvalConfig := do
  let loading := EvalConfig.load (← files) w.yaml w.environment path
  logAll w.now (loading.events.map ConfigEvent.logLine)
  match loading.outcome with
  | .ok config => return config
  | .error (.bench error) => do
    print w.hasStyles error.message
    throw (.exit 1)
  | .error failure => fail failure

/-- Makes the directory of reports. -/
def makeDirectory (path : Path) : CommandStep Unit := do
  let (made, outcome) := (← files).makeDirectory path
  setFiles made
  orFail (outcome.mapError fun (path, fault) => .file path fault)

/-- Loads the test cases of a source. -/
def loadCases (w : Surroundings) (source : CaseSourceConfig) : CommandStep (List TestCase) := do
  let loading := source.load (← files) w.maxDepth
  logAll w.now (loading.events.map CaseEvent.logLine)
  orFail loading.outcome

/-- Registers an approach. -/
def register (w : Surroundings) (bench : Bench ParsingBaseline) (approach : ParsingBaseline) :
    CommandStep (Bench ParsingBaseline) := do
  log w.now (bench.registered approach : EvaluationEvent Binary64).logLine
  return bench.add approach

/-- Creates and registers the approaches of a configuration, each with entropy of its own. -/
def registerAll (w : Surroundings) :
    Named ApproachConfig → Twister → Bench ParsingBaseline →
      CommandStep (Bench ParsingBaseline)
  | [], _, bench => return bench
  | (name, config) :: rest, entropy, bench => do
    let baseline ← orFail (Baseline.create name config entropy.split.1)
    registerAll w rest entropy.split.2 (← register w bench ⟨baseline, w.parser⟩)

/-- The line of the log for an entry of a record, if it has one. -/
def logLine? : LogEntry Binary64 → Option LogLine
  | .event event => some event.logLine
  | .approachEvent event => some event.logLine
  | .call .. => none

/-- Evaluates all approaches of a bench. A failure at the end of the watch comes before any
other. -/
def evaluateAll (w : Surroundings) (bench : Bench ParsingBaseline) (cases : List TestCase)
    (optionsOf : Text → Options) : CommandStep (Bench.Results Binary64) := do
  let format ← logFormat
  let turn := bench.evaluateAll ⟨w.clock, format.watch w.now, []⟩ cases optionsOf
  logAll w.now ((turn.world.log.filterMap logLine?).filter fun line => format.accepts w.now line)
  orFail (format.watchEnd w.now (LogEntry.told turn.world.log))
  match turn.outcome with
  | .ok results => return results
  | .error halt => throw (.halted halt)

/-- The approaches of a bench without a result. -/
def failedNames (bench : Bench ParsingBaseline) (results : Bench.Results Binary64) : List Text :=
  bench.names.filter fun name => (results.lookup name).isNone

/-- Prints the comparison of results and the metrics of each of them. -/
def printResults (w : Surroundings) (bench : Bench ParsingBaseline)
    (results : Bench.Results Binary64) : CommandStep Unit := do
  printAll w.hasStyles (Console.comparison (.ofResults results) (failedNames bench results))
  printAll w.hasStyles (results.flatMap fun (_, result) => Console.typeMetrics result)

/-- Ends the command with a code for failure where there is no result. -/
def requireResult (results : Bench.Results Binary64) : CommandStep Unit :=
  if results.isEmpty then throw (.exit 1) else return ()

/-- Writes a file. -/
def writeFile (path : Path) (text : Text) : CommandStep Unit := do
  setFiles (← orFail (((← files).write path (text.flatMap Utf8.encodePoint)).mapError
    (.file path)))

/-! ### The commands -/

/-- The report on the results of a configuration. -/
def reportOf (w : Surroundings) (config : EvalConfig) (results : Bench.Results Binary64) :
    EvaluationReport where
  name := config.name
  version := config.version
  policy := config.scoring.policy
  results := results
  comparison := .ofResults results
  generatedAt := w.now

/-- The options of an approach in a configuration. -/
def optionsIn (config : EvalConfig) (name : Text) : Options :=
  ((config.approaches.lookup name).map (·.options)).getD []

/-- Evaluates the approaches of a configuration and writes a report. -/
def evaluateConfig (w : Surroundings) (path output : Path) (logFormat : Text) :
    CommandStep Unit := do
  chooseLogFormat w logFormat
  let config ← loadConfig w path
  makeDirectory output
  let cases ← loadCases w config.cases
  let bench ← registerAll w config.approaches w.entropy (Bench.empty config.scoring.policy)
  let results ← evaluateAll w bench cases (optionsIn config)
  let reportPath := EvaluationReport.path output config.name w.now
  writeFile reportPath (reportOf w config results).text
  printResults w bench results
  printAll w.hasStyles (Console.reportLocation reportPath)
  requireResult results

/-- The labels of the baseline where it is evaluated alone. -/
def baselineLabels : List Text := ["boolean", "string", "number", "object", "array", "function"]

/-- The options of the baseline where it is evaluated alone. -/
def baselineOptions (seed : Option Int) : Options :=
  Value.fieldEntries [(Baseline.labelsOption, .list (baselineLabels.map Value.text)),
    (Baseline.probabilityOption, .float 1),
    (ApproachConfig.seedOption, (seed.map Value.int).getD .null)]

/-- Evaluates the baseline on the built-in test cases and shows some of its predictions. -/
def evaluateBaseline (w : Surroundings) (seed : Option Int) (logFormat : Text) :
    CommandStep Unit := do
  chooseLogFormat w logFormat
  let cases ← loadCases w .default
  printAll w.hasStyles (Console.cases cases)
  let bench ← register w (Bench.empty .lenient)
    ⟨Baseline.start Baseline.defaultName w.entropy, w.parser⟩
  let results ← evaluateAll w bench cases fun _ => baselineOptions seed
  printResults w bench results
  requireResult results
  printAll w.hasStyles
    (results.flatMap fun (_, result) =>
      Console.predictions result.predictions Console.defaultLimit)
  print w.hasStyles []

/-! ### Execution -/

/-- The exit code of a command, and what it leaves. -/
def execute (w : Surroundings) : Command → Nat × Transcript
  | run config output logFormat =>
    conclude w.hasStyles "Evaluation interrupted."
      (evaluateConfig w config output logFormat (.start w.files))
  | demo seed logFormat =>
    conclude w.hasStyles "Demo interrupted." (evaluateBaseline w seed logFormat (.start w.files))
  | help => (0, .start w.files)

/-- The exit code for arguments that ask for no command. -/
def usageCode : Nat := 2

/-- The exit code of the command that arguments ask for, and what it leaves. -/
def executeArguments (w : Surroundings) (arguments : List Text) : Nat × Transcript :=
  match ofArguments? arguments with
  | some command => command.execute w
  | none => (usageCode, .start w.files)

end Command

end TypeBench
