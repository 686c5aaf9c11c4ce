import TypeBench.Proofs.Command.Parts

/-!
# Stages of a run

A run loads a configuration and its test cases, makes the approaches, evaluates them and concludes
with the results. Where each stage leads, for a configuration without lone surrogates: the stages
before the evaluation leave the files as they are and only add to the log, and they are followed
through without asking the parser or the clock for anything. The evaluation comes to results unless
the tags of a name do not fit on a console.

## Main definitions

* `Surroundings.FailsPlainly`: the parser and the clock fail with texts that can be printed.
* `Command.evaluateLoaded`, `Command.concludeResults`: what is left of a run after a stage.
* `Command.resultLines`: the lines about results.

## Main results

* `Command.evaluateConfig_of_loaded`, `Command.evaluateConfig_of_error`: up to the test cases.
* `Command.evaluateLoaded_of_prevented`, `Command.evaluateLoaded_of_random`: up to the evaluation.
* `Command.exists_outcome_evaluation`, `Command.evaluation_results`: the evaluation.
* `Command.concludeResults_of_plain`: after the evaluation.
-/

namespace TypeBench

open Markup ParsingBaseline

/-- What the parser and the clock of a command fail with has no lone surrogates. -/
structure Surroundings.FailsPlainly (w : Surroundings) : Prop where
  parser : ∀ failure, w.parser.ready = .error failure → failure.message.hasSurrogate = false
  clock : ∀ message, ClockReading.failure message ∈ w.clock.readings →
    message.hasSurrogate = false

/-! ### Approaches of a command -/

theorem Bench.Registers.holds {parser : SourceParser} {entries : Named ApproachConfig}
    {bench built : Bench ParsingBaseline} {optionsOf : Text → Options}
    (h : Registers parser bench entries built) (hbench : Holds (IsPlain parser) optionsOf bench) :
    Holds (IsPlain parser) optionsOf built := by
  induction h with
  | nil => exact hbench
  | @cons bench bench' name config rest given b hcreate generator entropy _ ih =>
    refine ih ⟨fun other registration hfind => ?_, hbench.used⟩
    have hfound : (bench.keep b.name ⟨bench.count,
        ⟨{ b with generator := generator, entropy := entropy }, parser⟩⟩).find? other =
          some registration := hfind
    rw [find?_keep] at hfound
    split at hfound
    · rename_i hother
      obtain rfl := Option.some.inj hfound
      obtain ⟨-, hsetup⟩ := Baseline.create_ok hcreate
      have hplain : IsPlain parser name
          ⟨{ b with generator := generator, entropy := entropy }, parser⟩ :=
        (isPlain_start parser name given).of_setup_eq hsetup rfl
      have hname : other = name := hother.trans (congrArg Baseline.Setup.name hsetup)
      rw [hname]
      exact hplain
    · exact hbench.registered other registration hfound

namespace Command

open CommandStep

variable {w : Surroundings} {config : EvalConfig} {bench : Bench ParsingBaseline}
  {cases : List TestCase} {format : LogFormat}

/-- The approaches of a configuration without lone surrogates keep such labels. -/
theorem holds_of_registers {policy : ScoringPolicy} (hconfig : config.IsPlain)
    (h : Bench.Registers w.parser (.empty policy) config.approaches bench) :
    Bench.Holds (IsPlain w.parser) (optionsIn config) bench := by
  refine h.holds ⟨fun name registration hfind => ?_, fun name a a' ha hused => ?_⟩
  · cases hfind
  · exact ha.used (hconfig.givesPlainLabels name) hused

/-- The evaluation of a command comes to results, unless the tags of a name do not fit on a
console. -/
theorem exists_outcome_evaluation (cases : List TestCase)
    (hbench : Bench.Holds (IsPlain w.parser) (optionsIn config) bench) (hconfig : config.IsPlain)
    (hnames : bench.names = Named.names config.approaches) (hclock : w.clock.NeverInterrupts)
    (hfails : format = .console → w.FailsPlainly)
    (htags : format = .console → ∀ name ∈ Named.names config.approaches, Tag.fault? name = none) :
    ∃ results, (evaluation w format bench cases (optionsIn config)).outcome = .ok results := by
  rw [evaluation, Bench.evaluateAll, hnames]
  cases format with
  | json =>
    exact Bench.evaluateNames_ok ParsingBaseline.neverInterrupts _ cases _ bench hclock
      (LogFormat.watch_json_neverFails w.now)
  | console =>
    have hw : World.IsWatched .console w.now ⟨w.clock, LogFormat.console.watch w.now, []⟩ :=
      ⟨rfl, ⟨hclock, (hfails rfl).clock⟩, List.forall_mem_nil _⟩
    exact Bench.evaluateNames_watched hbench hw
      (fun name hname => ⟨hconfig.names name hname, htags rfl name hname⟩)
      hconfig.givesPlainLabels (hfails rfl).parser cases

/-- Results are of approaches in their order, and can be printed; all approaches were started. -/
theorem evaluation_results {results : Bench.Results Binary64}
    (hbench : Bench.Holds (IsPlain w.parser) (optionsIn config) bench) (hconfig : config.IsPlain)
    (hnames : bench.names = Named.names config.approaches)
    (hcases : ∀ case ∈ cases, case.IsPlain)
    (h : (evaluation w format bench cases (optionsIn config)).outcome = .ok results) :
    (LogEntry.told (evaluation w format bench cases (optionsIn config)).world.log).filterMap
        EvaluationEvent.started? = Named.names config.approaches ∧
      (Named.names results).Sublist (Named.names config.approaches) ∧
      ∀ entry ∈ results, entry.2.approach = entry.1 ∧ entry.2.IsPrintable := by
  rw [evaluation, Bench.evaluateAll, hnames] at h ⊢
  obtain ⟨hstarted, hsublist, hall⟩ :=
    Bench.evaluateNames_courses hbench (hnames ▸ List.Subset.refl _) h
  refine ⟨hstarted, hsublist, fun entry hentry => ?_⟩
  have hname : entry.1 ∈ Named.names config.approaches :=
    hsublist.subset (List.mem_map_of_mem hentry)
  exact (hall entry hentry).isPrintable (hconfig.names _ hname) (hconfig.givesPlainLabels _) hcases

/-! ### Before the evaluation -/

/-- What a command does with results. -/
def concludeResults (w : Surroundings) (output : Path) (config : EvalConfig)
    (bench : Bench ParsingBaseline) (results : Bench.Results Binary64) : CommandStep Unit := do
  let reportPath := EvaluationReport.path output config.name w.now
  writeFile reportPath (reportOf w config results).text
  printResults w bench results
  printAll w.hasStyles (Console.reportLocation reportPath)
  requireResult results

/-- What a command does after its configuration is loaded and the directory is made. -/
def evaluateLoaded (w : Surroundings) (output : Path) (config : EvalConfig) :
    CommandStep Unit := do
  let cases ← loadCases w config.cases
  let bench ← registerAll w config.approaches w.entropy (Bench.empty config.scoring.policy)
  let results ← evaluateAll w bench cases (optionsIn config)
  concludeResults w output config bench results

variable {path output : Path} {formatName : Text} {made : FileTree}

theorem evaluateConfig_of_loaded (hformat : LogFormat.ofName? formatName = some format)
    (hload : (EvalConfig.load w.files w.yaml w.environment path).outcome = .ok config)
    (hconfig : config.IsPlain) (hmake : w.files.makeDirectory output = (made, .ok ())) :
    evaluateConfig w path output formatName (.start w.files) =
      evaluateLoaded w output config
        (.ofLog made format (config.events.map ConfigEvent.logLine)) := by
  have hchoose : chooseLogFormat w formatName (.start w.files) =
      .ok () ⟨w.files, [], format⟩ := chooseLogFormat_of_ofName? hformat
  have hloaded : loadConfig w path ⟨w.files, [], format⟩ =
      .ok config (.ofLog w.files format (config.events.map ConfigEvent.logLine)) :=
    loadConfig_of_ok hload hconfig
  have hmade : makeDirectory output
      (.ofLog w.files format (config.events.map ConfigEvent.logLine)) =
        .ok () (.ofLog made format (config.events.map ConfigEvent.logLine)) :=
    makeDirectory_of_ok hmake
  rw [evaluateConfig, bind_of_ok hchoose, bind_of_ok hloaded, bind_of_ok hmade]
  rfl

theorem evaluateConfig_of_error (output : Path)
    (hformat : LogFormat.ofName? formatName = some format) {failure : Failure}
    (hload : (EvalConfig.load w.files w.yaml w.environment path).outcome = .error failure) :
    ∃ ending t, evaluateConfig w path output formatName (.start w.files) = .error ending t ∧
      ending.IsFailure ∧ t.files = w.files := by
  have hchoose : chooseLogFormat w formatName (.start w.files) =
      .ok () ⟨w.files, [], format⟩ := chooseLogFormat_of_ofName? hformat
  obtain ⟨ending, t, herror, hending, hfiles⟩ :=
    loadConfig_of_error (w := w) (t := ⟨w.files, [], format⟩) hload
  refine ⟨ending, t, ?_, hending, hfiles⟩
  rw [evaluateConfig, bind_of_ok hchoose, bind_of_error herror]

/-- The lines of the log before an evaluation. -/
def preparationLines (w : Surroundings) (config : EvalConfig) (made : FileTree) : List LogLine :=
  config.events.map ConfigEvent.logLine ++
    ((config.cases.load made w.maxDepth).events.map CaseEvent.logLine ++
      registeredLines (Named.names config.approaches))

/-- A command whose test cases cannot be loaded ends, and so does one with an approach of an
unsupported kind. Neither asks the parser or the clock for anything. -/
theorem evaluateLoaded_of_prevented (w : Surroundings) (output : Path) (format : LogFormat)
    (hconfig : config.IsPlain)
    (hnodup : (Named.names config.approaches).Nodup)
    (h : (∃ failure, (config.cases.load made w.maxDepth).outcome = .error failure) ∨
      ∃ entry ∈ config.approaches, entry.2.kind ≠ ApproachConfig.randomKind) :
    ∃ ending lines, lines <+: preparationLines w config made ∧ ending.IsFailure ∧
      ∀ (parser : SourceParser) (clock : Clock Binary64),
        evaluateLoaded { w with parser := parser, clock := clock } output config
            (.ofLog made format (config.events.map ConfigEvent.logLine)) =
          .error ending (.ofLog made format lines) := by
  cases hcases : (config.cases.load made w.maxDepth).outcome with
  | error failure =>
    obtain ⟨ending, done, hdone, herror, hending⟩ := loadCases_of_error (w := w)
      (t := .ofLog made format (config.events.map ConfigEvent.logLine)) hcases
    rw [Transcript.add_ofLog] at herror
    refine ⟨ending, _, ?_, hending, fun parser clock => bind_of_error herror _⟩
    exact (List.prefix_append_right_inj _).2 (hdone.trans (List.prefix_append _ _))
  | ok cases =>
    obtain hkind := h.resolve_left fun ⟨failure, hfailure⟩ => by
      rw [hcases] at hfailure
      cases hfailure
    have hloaded := loadCases_of_ok (w := w)
      (t := .ofLog made format (config.events.map ConfigEvent.logLine)) hcases hconfig.path
    rw [Transcript.add_ofLog] at hloaded
    let prepared := config.events.map ConfigEvent.logLine ++
      (config.cases.load made w.maxDepth).events.map CaseEvent.logLine
    obtain ⟨ending, done, hdone, hending, hall⟩ := registerAll_of_unsupported hkind hconfig.names []
      hnodup w.entropy (.ofLog made format prepared)
    rw [Transcript.add_ofLog] at hall
    refine ⟨ending, prepared ++ done, ?_, hending, fun parser clock => ?_⟩
    · rw [preparationLines, ← List.append_assoc]
      exact (List.prefix_append_right_inj _).2 hdone
    · exact (bind_of_ok hloaded _).trans (bind_of_error (hall _ _ rfl) _)

/-- A command whose test cases can be loaded and whose approaches are random evaluates them. -/
theorem evaluateLoaded_of_random (w : Surroundings) (output : Path) (format : LogFormat)
    (hconfig : config.IsPlain)
    (hnodup : (Named.names config.approaches).Nodup)
    (hcases : (config.cases.load made w.maxDepth).outcome = .ok cases)
    (hkind : ∀ entry ∈ config.approaches, entry.2.kind = ApproachConfig.randomKind) :
    ∃ (bench : Bench ParsingBaseline) (lines : List LogLine),
      bench.names = Named.names config.approaches ∧
      Bench.Registers w.parser (.empty config.scoring.policy) config.approaches bench ∧
      evaluateLoaded w output config
          (.ofLog made format (config.events.map ConfigEvent.logLine)) =
        (evaluateAll w bench cases (optionsIn config) >>= concludeResults w output config bench)
          (.ofLog made format lines) := by
  have hloaded := loadCases_of_ok (w := w)
    (t := .ofLog made format (config.events.map ConfigEvent.logLine)) hcases hconfig.path
  rw [Transcript.add_ofLog] at hloaded
  let prepared := config.events.map ConfigEvent.logLine ++
    (config.cases.load made w.maxDepth).events.map CaseEvent.logLine
  have hnew : ((Bench.empty config.scoring.policy : Bench ParsingBaseline).names ++
      Named.names config.approaches).Nodup := hnodup
  obtain ⟨bench, hregister, hnames⟩ := registerAll_of_random (w := w)
    (t := .ofLog made format prepared) hkind hconfig.names hnew w.entropy
  refine ⟨bench, prepared ++ registeredLines (Named.names config.approaches), hnames,
    registers_of_registerAll hregister, ?_⟩
  rw [Transcript.add_ofLog] at hregister
  exact (bind_of_ok hloaded _).trans (bind_of_ok hregister _)

/-! ### After the evaluation -/

theorem writeFile_of_ok {path : Path} {text : Text} {t : Transcript} {written : FileTree}
    (h : t.files.write path (text.flatMap Utf8.encodePoint) = .ok written) :
    writeFile path text t = .ok () { t with files := written } := by
  rw [writeFile, files_bind, h]
  rfl

/-- The lines about the results of a configuration, and about the place of their report. -/
def resultLines (w : Surroundings) (output : Path) (config : EvalConfig)
    (results : Bench.Results Binary64) (failed : List Text) : List Text :=
  Console.comparison (.ofResults results) failed ++
    (results.flatMap fun entry => Console.typeMetrics entry.2) ++
    Console.reportLocation (EvaluationReport.path output config.name w.now)

/-- Results without lone surrogates are written and printed. -/
theorem concludeResults_of_plain {results : Bench.Results Binary64} {t : Transcript}
    {written : FileTree}
    (hplain : ∀ line ∈ resultLines w output config results (failedNames bench results),
      line.hasSurrogate = false)
    (hwrite : t.files.write (EvaluationReport.path output config.name w.now)
      ((reportOf w config results).text.flatMap Utf8.encodePoint) = .ok written) :
    concludeResults w output config bench results t =
      requireResult results (({ t with files := written }).add
        (((resultLines w output config results (failedNames bench results)).map
          (Console.printed w.hasStyles)).map .text)) := by
  obtain ⟨hresults, hlocation⟩ := List.forall_mem_append.1 hplain
  obtain ⟨hcomparison, hmetrics⟩ := List.forall_mem_append.1 hresults
  have hprint (t : Transcript) : printResults w bench results t = .ok () (t.add
      (((Console.comparison (.ofResults results) (failedNames bench results) ++
        results.flatMap fun entry => Console.typeMetrics entry.2).map
          (Console.printed w.hasStyles)).map .text)) := by
    rw [printResults, bind_of_ok (printAll_of_plain hcomparison), printAll_of_plain hmetrics,
      Transcript.add_add, List.map_append, List.map_append]
  rw [concludeResults, bind_of_ok (writeFile_of_ok hwrite), bind_of_ok (hprint _),
    bind_of_ok (printAll_of_plain hlocation), Transcript.add_add, resultLines]
  simp only [List.map_append]

/-- A command that requires a result ends with a code for failure where there is none. -/
theorem conclude_requireResult (hasStyles : Bool) (interrupted : Text)
    (results : Bench.Results Binary64) (t : Transcript) :
    conclude hasStyles interrupted (requireResult results t) =
      (if results = [] then 1 else 0, t) := by
  cases results with
  | nil => rfl
  | cons entry rest => rfl

end Command

end TypeBench
