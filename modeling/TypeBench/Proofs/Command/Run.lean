import TypeBench.Proofs.Command.Stages
import TypeBench.Proofs.Matching.Conservation

/-!
# Runs of a configuration

What a run leaves, from the configuration to the exit code. A run whose configuration cannot be
loaded makes nothing. One that is prevented from evaluating makes no report and asks nothing of the
parser or the clock. Any other writes one report: the approaches with a result and those that failed
are parts of the approaches of the configuration, in their order. A run on a console whose names
have tags that do not fit is an exception: it ends early and writes nothing.

## Main definitions

* `Command.Reports`: what a run leaves that writes a report.
* `Command.Prevented`: what a run leaves that is prevented from evaluating.

## Main results

* `Command.execute_of_unloaded`, `Command.execute_of_prevented`, `Command.execute_of_misfit`,
  `Command.execute_of_random`: the ways of a run.
* `Command.execute_run`: all of them.
-/

namespace TypeBench

open Markup ParsingBaseline

/-- A part of a list without repetitions and the rest of it, both in their order. -/
theorem interleaves_filter {α : Type} {as all : List α} {p : α → Bool} (h : as.Sublist all)
    (hnodup : all.Nodup) (hp : ∀ a ∈ all, p a = true ↔ a ∉ as) :
    Interleaves as (all.filter p) all := by
  induction h with
  | slnil => exact .nil
  | cons a hsub ih =>
    obtain ⟨hnew, hrest⟩ := List.nodup_cons.1 hnodup
    have ha : p a = true := (hp a List.mem_cons_self).2 fun hmem => hnew (hsub.subset hmem)
    rw [List.filter_cons_of_pos ha]
    exact .right a (ih hrest fun b hb => hp b (List.mem_cons_of_mem a hb))
  | cons_cons a hsub ih =>
    obtain ⟨hnew, hrest⟩ := List.nodup_cons.1 hnodup
    have ha : ¬p a = true := fun htrue => (hp a List.mem_cons_self).1 htrue List.mem_cons_self
    rw [List.filter_cons_of_neg ha]
    refine .left a (ih hrest fun b hb => (hp b (List.mem_cons_of_mem a hb)).trans ?_)
    have hne : b ≠ a := fun heq => hnew (heq ▸ hb)
    rw [List.mem_cons, or_iff_right hne]

namespace Command

open CommandStep

variable {w : Surroundings} {config : EvalConfig} {cases : List TestCase} {format : LogFormat}
  {path output : Path} {formatName : Text} {made : FileTree}

/-! ### Runs -/

/-- What a run leaves that evaluates the approaches of a configuration: one report on the results is
written, and the results and the approaches without one, in their order, are printed. -/
structure Reports (w : Surroundings) (config : EvalConfig) (made : FileTree) (output : Path)
    (results : Bench.Results Binary64) (failed : List Text) (left : Nat × Transcript) : Prop where
  parts : Interleaves (Named.names results) failed (Named.names config.approaches)
  names : ∀ entry ∈ results, entry.2.approach = entry.1
  rows : (reportOf w config results).comparison.rows.Perm
    (results.map fun entry => ComparisonRow.ofResult entry.1 entry.2)
  written : made.write (EvaluationReport.path output config.name w.now)
    ((reportOf w config results).text.flatMap Utf8.encodePoint) = .ok left.2.files
  printed : left.2.text =
    Console.output w.hasStyles (resultLines w output config results failed)
  code : left.1 = 0 ↔ results ≠ []

/-- What a run leaves that ends before the evaluation, whatever the parser and the clock are:
nothing but a directory, and lines of the log about what came before. -/
structure Prevented (w : Surroundings) (command : Command) (config : EvalConfig)
    (made : FileTree) : Prop where
  code : (command.execute w).1 = 1
  files : (command.execute w).2.files = made
  log : (command.execute w).2.log <+: preparationLines w config made
  blind : ∀ (parser : SourceParser) (clock : Clock Binary64),
    command.execute { w with parser := parser, clock := clock } = command.execute w

/-- A run that ends early keeps the files and the log that it has then. -/
theorem execute_of_error {ending : Ending} {t : Transcript}
    (h : evaluateConfig w path output formatName (.start w.files) = .error ending t)
    (hending : ending.IsFailure) :
    ((run path output formatName).execute w).1 = 1 ∧
      ((run path output formatName).execute w).2.files = t.files ∧
      ((run path output formatName).execute w).2.log = t.log := by
  obtain ⟨hcode, hfiles, hlog⟩ := conclude_error w.hasStyles "Evaluation interrupted." ending t
  rw [execute, h]
  exact ⟨hcode.trans hending, hfiles, hlog⟩

/-- A run whose configuration cannot be loaded. -/
theorem execute_of_unloaded (hformat : LogFormat.ofName? formatName = some format)
    {failure : Failure}
    (hload : (EvalConfig.load w.files w.yaml w.environment path).outcome = .error failure) :
    ((run path output formatName).execute w).1 = 1 ∧
      ((run path output formatName).execute w).2.files = w.files := by
  obtain ⟨ending, t, herror, hending, hfiles⟩ :=
    evaluateConfig_of_error output hformat hload
  obtain ⟨hcode, hkept, -⟩ := execute_of_error herror hending
  exact ⟨hcode, hkept.trans hfiles⟩

/-- A run that is prevented from evaluating. -/
theorem execute_of_prevented (hformat : LogFormat.ofName? formatName = some format)
    (hload : (EvalConfig.load w.files w.yaml w.environment path).outcome = .ok config)
    (hconfig : config.IsPlain) (hmake : w.files.makeDirectory output = (made, .ok ()))
    (h : (∃ failure, (config.cases.load made w.maxDepth).outcome = .error failure) ∨
      ∃ entry ∈ config.approaches, entry.2.kind ≠ ApproachConfig.randomKind) :
    Prevented w (run path output formatName) config made := by
  obtain ⟨ending, lines, hlines, hending, hall⟩ := evaluateLoaded_of_prevented w output format
    hconfig (EvalConfig.nodup_names_of_load hload) h
  have hstops (parser : SourceParser) (clock : Clock Binary64) :
      evaluateConfig { w with parser := parser, clock := clock } path output formatName
          (.start w.files) = .error ending (.ofLog made format lines) :=
    (evaluateConfig_of_loaded (w := { w with parser := parser, clock := clock }) hformat hload
      hconfig hmake).trans (hall parser clock)
  have hself := hstops w.parser w.clock
  obtain ⟨hcode, hfiles, hlog⟩ := execute_of_error hself hending
  refine ⟨hcode, hfiles, ?_, fun parser clock => ?_⟩
  · rw [hlog, Transcript.log_ofLog]
    exact hlines
  · exact congrArg (conclude w.hasStyles "Evaluation interrupted.")
      ((hstops parser clock).trans hself.symm)

/-- A run on a console that shows a name whose tags do not fit writes no report. -/
theorem execute_of_misfit (hformat : LogFormat.ofName? formatName = some .console)
    (hload : (EvalConfig.load w.files w.yaml w.environment path).outcome = .ok config)
    (hconfig : config.IsPlain) (hmake : w.files.makeDirectory output = (made, .ok ()))
    (hcases : (config.cases.load made w.maxDepth).outcome = .ok cases)
    (hkind : ∀ entry ∈ config.approaches, entry.2.kind = ApproachConfig.randomKind)
    (hmisfit : ∃ name ∈ Named.names config.approaches, Tag.fault? name ≠ none) :
    ((run path output formatName).execute w).1 = 1 ∧
      ((run path output formatName).execute w).2.files = made := by
  obtain ⟨bench, lines, hnames, hregisters, heq⟩ := evaluateLoaded_of_random w output .console
    hconfig (EvalConfig.nodup_names_of_load hload) hcases hkind
  have hbench := holds_of_registers hconfig hregisters
  have hplain := (CaseSourceConfig.isPlain_of_load hcases hconfig.path).1
  obtain ⟨name, hname, hfault⟩ := hmisfit
  -- If the evaluation comes to results, every approach was started, and so the name is shown.
  have hends : (∃ halt, (evaluation w .console bench cases (optionsIn config)).outcome =
        .error halt) ∨
      LogFormat.console.watchEnd w.now (LogEntry.told
        (evaluation w .console bench cases (optionsIn config)).world.log) ≠ .ok () := by
    cases houtcome : (evaluation w .console bench cases (optionsIn config)).outcome with
    | error halt => exact .inl ⟨halt, rfl⟩
    | ok results =>
      obtain ⟨hstarted, -, -⟩ := evaluation_results hbench hconfig hnames hplain houtcome
      exact .inr (LogFormat.watchEnd_ne_ok (hstarted ▸ hname) (hconfig.names name hname) hfault)
  obtain ⟨ending, t, herror, hending, hfiles⟩ :=
    evaluateAll_of_error (t := .ofLog made .console lines) hends
  have hstops : evaluateConfig w path output formatName (.start w.files) = .error ending t := by
    rw [evaluateConfig_of_loaded hformat hload hconfig hmake, heq, bind_of_error herror]
  obtain ⟨hcode, hkept, -⟩ := execute_of_error hstops hending
  exact ⟨hcode, hkept.trans hfiles⟩

/-- The lines about results have no lone surrogates. -/
theorem hasSurrogate_resultLines {results : Bench.Results Binary64} {failed : List Text}
    (houtput : ∀ name ∈ output.names, name.hasSurrogate = false)
    (hname : config.name.hasSurrogate = false)
    (hresults : ∀ entry ∈ results, entry.1.hasSurrogate = false ∧ entry.2.IsPrintable)
    (hfailed : ∀ name ∈ failed, name.hasSurrogate = false) :
    ∀ line ∈ resultLines w output config results failed, line.hasSurrogate = false := by
  refine List.forall_mem_append.2 ⟨List.forall_mem_append.2 ⟨?_, fun line hline => ?_⟩, ?_⟩
  · refine Console.hasSurrogate_comparison (fun name hmem => ?_) hfailed
    obtain ⟨entry, hentry, rfl⟩ := List.mem_map.1 hmem
    exact (hresults entry hentry).1
  · obtain ⟨entry, hentry, hline⟩ := List.mem_flatMap.1 hline
    exact Console.hasSurrogate_typeMetrics (hresults entry hentry).2 line hline
  · exact Console.hasSurrogate_reportLocation (EvaluationReport.hasSurrogate_path houtput hname _)

/-- A run that evaluates the approaches of a configuration. -/
theorem execute_of_random (hformat : LogFormat.ofName? formatName = some format)
    (hclock : w.clock.NeverInterrupts) (hfails : format = .console → w.FailsPlainly)
    (hload : (EvalConfig.load w.files w.yaml w.environment path).outcome = .ok config)
    (hconfig : config.IsPlain) (hmake : w.files.makeDirectory output = (made, .ok ()))
    (hcases : (config.cases.load made w.maxDepth).outcome = .ok cases)
    (hkind : ∀ entry ∈ config.approaches, entry.2.kind = ApproachConfig.randomKind)
    (htags : format = .console → ∀ name ∈ Named.names config.approaches, Tag.fault? name = none)
    (houtput : ∀ name ∈ output.names, name.hasSurrogate = false)
    (hwrite : ∀ bytes, ∃ written,
      made.write (EvaluationReport.path output config.name w.now) bytes = .ok written) :
    ∃ (bench : Bench ParsingBaseline) (results : Bench.Results Binary64) (failed : List Text),
      Bench.Registers w.parser (.empty config.scoring.policy) config.approaches bench ∧
      (evaluation w format bench cases (optionsIn config)).outcome = .ok results ∧
      Reports w config made output results failed ((run path output formatName).execute w) := by
  have hnodup := EvalConfig.nodup_names_of_load hload
  obtain ⟨bench, lines, hnames, hregisters, heq⟩ := evaluateLoaded_of_random w output format
    hconfig hnodup hcases hkind
  have hbench := holds_of_registers hconfig hregisters
  have hplain := (CaseSourceConfig.isPlain_of_load hcases hconfig.path).1
  obtain ⟨results, houtcome⟩ :=
    exists_outcome_evaluation cases hbench hconfig hnames hclock hfails htags
  obtain ⟨hstarted, hsublist, hall⟩ := evaluation_results hbench hconfig hnames hplain houtcome
  have hwatch : format.watchEnd w.now (LogEntry.told
      (evaluation w format bench cases (optionsIn config)).world.log) = .ok () :=
    LogFormat.watchEnd_eq_ok fun hconsole => hstarted ▸ htags hconsole
  obtain ⟨more, hevaluate⟩ := evaluateAll_of_ok (t := .ofLog made format lines) houtcome hwatch
  rw [Transcript.add_ofLog] at hevaluate
  obtain ⟨written, hwritten⟩ := hwrite ((reportOf w config results).text.flatMap Utf8.encodePoint)
  have hlines : ∀ line ∈ resultLines w output config results (failedNames bench results),
      line.hasSurrogate = false := by
    refine hasSurrogate_resultLines houtput (EvalConfig.hasSurrogate_of_load hload).1
      (fun entry hentry => ⟨?_, (hall entry hentry).2⟩) fun name hname => ?_
    · exact hconfig.names _ (hsublist.subset (List.mem_map_of_mem hentry))
    · exact hconfig.names _ (hnames ▸ (List.mem_filter.1 hname).1)
  have hrun : (run path output formatName).execute w =
      (if results = [] then 1 else 0,
        ({ Transcript.ofLog made format (lines ++ more) with files := written }).add
          (((resultLines w output config results (failedNames bench results)).map
            (Console.printed w.hasStyles)).map .text)) := by
    rw [execute, evaluateConfig_of_loaded hformat hload hconfig hmake, heq, bind_of_ok hevaluate,
      concludeResults_of_plain (t := .ofLog made format (lines ++ more)) hlines hwritten,
      conclude_requireResult]
  refine ⟨bench, results, failedNames bench results, hregisters, houtcome, ?_⟩
  rw [hrun]
  exact {
    parts := by
      rw [failedNames, hnames]
      refine interleaves_filter hsublist hnodup fun name _ => ?_
      rw [Option.isNone_iff_eq_none, Named.mem_names_iff, not_not]
    names := fun entry hentry => (hall entry hentry).1
    rows := List.mergeSort_perm _ _
    written := hwritten
    printed := by
      rw [Transcript.text_add_text, Console.output, List.flatMap_def]
      exact congrArg (· ++ _) (Transcript.text_ofLog written format (lines ++ more))
    code := by
      by_cases hnone : results = []
      · simp [hnone]
      · simp [hnone] }

/-- **Runs of a configuration.** Let the format of the log be known and no interrupt arrive. A run
whose configuration cannot be loaded makes nothing. Let the configuration have no lone surrogates
and the directory be made. If the test cases cannot be loaded or an approach is of an unsupported
kind, nothing more is made, and nothing is asked of the parser or the clock. Otherwise the
approaches are evaluated: the results are written in one report, and they and the failed approaches
are parts of the approaches of the configuration, in their order. For this the lines have to be such
that they can be printed and, on a console, the tags of the names have to fit; where these do not,
no report is written. -/
theorem execute_run (hformat : LogFormat.ofName? formatName = some format)
    (hclock : w.clock.NeverInterrupts) (path output : Path) :
    (∀ failure, (EvalConfig.load w.files w.yaml w.environment path).outcome = .error failure →
      ((run path output formatName).execute w).1 = 1 ∧
        ((run path output formatName).execute w).2.files = w.files) ∧
    ∀ config made, (EvalConfig.load w.files w.yaml w.environment path).outcome = .ok config →
      config.IsPlain → w.files.makeDirectory output = (made, .ok ()) →
      (((∃ failure, (config.cases.load made w.maxDepth).outcome = .error failure) ∨
          ∃ entry ∈ config.approaches, entry.2.kind ≠ ApproachConfig.randomKind) →
        Prevented w (run path output formatName) config made) ∧
      ∀ cases, (config.cases.load made w.maxDepth).outcome = .ok cases →
        (∀ entry ∈ config.approaches, entry.2.kind = ApproachConfig.randomKind) →
        (format = .console → (∃ name ∈ Named.names config.approaches, Tag.fault? name ≠ none) →
          ((run path output formatName).execute w).1 = 1 ∧
            ((run path output formatName).execute w).2.files = made) ∧
        ((format = .console →
            w.FailsPlainly ∧ ∀ name ∈ Named.names config.approaches, Tag.fault? name = none) →
          (∀ name ∈ output.names, name.hasSurrogate = false) →
          (∀ bytes, ∃ written,
            made.write (EvaluationReport.path output config.name w.now) bytes = .ok written) →
          ∃ (bench : Bench ParsingBaseline) (results : Bench.Results Binary64)
            (failed : List Text),
            Bench.Registers w.parser (.empty config.scoring.policy) config.approaches bench ∧
            (evaluation w format bench cases (optionsIn config)).outcome = .ok results ∧
            Reports w config made output results failed
              ((run path output formatName).execute w)) := by
  refine ⟨fun failure hload => execute_of_unloaded hformat hload, ?_⟩
  intro config made hload hconfig hmake
  refine ⟨execute_of_prevented hformat hload hconfig hmake, fun cases hcases hkind => ⟨?_, ?_⟩⟩
  · intro hconsole hmisfit
    subst hconsole
    exact execute_of_misfit hformat hload hconfig hmake hcases hkind hmisfit
  · intro hshown houtput hwrite
    exact execute_of_random hformat hclock (fun hconsole => (hshown hconsole).1) hload hconfig
      hmake hcases hkind (fun hconsole => (hshown hconsole).2) houtput hwrite

/-! ### Samples -/

/-- The time of a sample. -/
def sampleMoment : Timestamp := ⟨⟨2024, 1, 2⟩, 3, 4, 5, 0, none⟩

/-- What a command finds where a value is the configuration at its place. -/
def sampleSurroundings (value : Value) : Surroundings where
  files := EvalConfig.sampleFiles
  environment := []
  yaml := fun _ => .value value
  parser := Baseline.lostParser
  clock := .ofReadings []
  entropy := ⟨.replicate 624 0, 0⟩
  now := sampleMoment
  hasStyles := true

/-- A directory for reports. -/
def sampleOutput : Path := ⟨0, ["results"]⟩

/-- The files with this directory. -/
def sampleMade : FileTree := EvalConfig.sampleFiles ++ [(.ofNames ["results"], .directory)]

theorem makeDirectory_sample :
    EvalConfig.sampleFiles.makeDirectory sampleOutput = (sampleMade, .ok ()) := by
  have hone : EvalConfig.sampleFiles.makeOne sampleOutput = .ok sampleMade := rfl
  rw [FileTree.makeDirectory, hone]

/-- A report of the samples can be written there, and it is a new file. -/
theorem write_sample (bytes : Bytes) : ∃ place,
    sampleMade.write (EvaluationReport.path sampleOutput "demo" sampleMoment) bytes =
      .ok (sampleMade ++ [(place, .file bytes)]) :=
  ⟨_, rfl⟩

/-- A configuration with one random approach that has a seed, and built-in test cases. -/
theorem isPlain_seeded (name : Text) {config : EvalConfig} (hname : name.hasSurrogate = false)
    (hcases : config.cases = .default)
    (happroaches : config.approaches =
      [(name, ⟨ApproachConfig.randomKind, Value.fieldEntries [("seed", .int 7)]⟩)]) :
    config.IsPlain where
  names := by
    rw [happroaches]
    exact List.forall_mem_singleton.2 hname
  labels := by
    rw [happroaches]
    refine List.forall_mem_singleton.2 fun value labels hvalue => ?_
    have hnone : Baseline.given? (Value.fieldEntries [("seed", .int 7)]) Baseline.labelsOption =
        none := rfl
    rw [hnone] at hvalue
    cases hvalue
  path := by
    rw [hcases]
    exact nofun

theorem clock_sample (value : Value) : (sampleSurroundings value).clock.NeverInterrupts :=
  List.not_mem_nil

/-- The run of a configuration that can be loaded writes a report. -/
theorem execute_run_seeded :
    let w := sampleSurroundings EvalConfig.seededValue
    LogFormat.ofName? "console" = some .console ∧ w.clock.NeverInterrupts ∧
      (EvalConfig.load w.files w.yaml w.environment EvalConfig.samplePath).outcome =
        .ok EvalConfig.seededConfig ∧
      EvalConfig.seededConfig.IsPlain ∧
      w.files.makeDirectory sampleOutput = (sampleMade, .ok ()) ∧
      ∃ results failed,
        Interleaves (Named.names results) failed [Text.ofString "baseline"] ∧
        Reports w EvalConfig.seededConfig sampleMade sampleOutput results failed
          ((run EvalConfig.samplePath sampleOutput "console").execute w) := by
  intro w
  have hformat : LogFormat.ofName? "console" = some .console := rfl
  have hclock : w.clock.NeverInterrupts := clock_sample _
  have hload : (EvalConfig.load w.files w.yaml w.environment EvalConfig.samplePath).outcome =
      .ok EvalConfig.seededConfig := EvalConfig.outcome_load_seeded
  have hconfig : EvalConfig.seededConfig.IsPlain := isPlain_seeded "baseline" rfl rfl rfl
  obtain ⟨-, hloaded⟩ := execute_run hformat hclock EvalConfig.samplePath sampleOutput
  obtain ⟨-, hcases⟩ := hloaded EvalConfig.seededConfig sampleMade hload hconfig
    makeDirectory_sample
  obtain ⟨-, hreports⟩ := hcases TestCase.samples rfl (List.forall_mem_singleton.2 rfl)
  have hshown : ∀ name ∈ Named.names EvalConfig.seededConfig.approaches, Tag.fault? name = none :=
    List.forall_mem_singleton.2 (by decide +kernel)
  have hwrite (bytes : Bytes) : ∃ written,
      sampleMade.write (EvaluationReport.path sampleOutput EvalConfig.seededConfig.name w.now)
        bytes = .ok written := by
    obtain ⟨place, hplace⟩ := write_sample bytes
    exact ⟨_, hplace⟩
  obtain ⟨bench, results, failed, -, -, hrun⟩ :=
    hreports (fun _ => ⟨⟨nofun, nofun⟩, hshown⟩) (List.forall_mem_singleton.2 rfl) hwrite
  exact ⟨hformat, hclock, hload, hconfig, makeDirectory_sample, results, failed, hrun.parts, hrun⟩

/-- The value of a configuration whose only approach has a name like the end of a tag. -/
def misfitValue : Value :=
  .ofFields [("name", "demo"), ("version", "1"),
    ("approaches", .ofFields [("[/x]",
      .ofFields [("type", "random"), ("options", .ofFields [("seed", .int 7)])])])]

/-- The configuration that it writes. -/
def misfitConfig : EvalConfig where
  name := "demo"
  version := "1"
  cases := .default
  scoring := ⟨.lenient⟩
  approaches := [("[/x]", ⟨ApproachConfig.randomKind, Value.fieldEntries [("seed", .int 7)]⟩)]

theorem outcome_load_misfit :
    (EvalConfig.load EvalConfig.sampleFiles (fun _ => .value misfitValue) []
      EvalConfig.samplePath).outcome = .ok misfitConfig := by
  have hplain : ∀ t ∈ misfitValue.texts, ('$' : CodePoint) ∉ t := by decide
  exact EvalConfig.outcome_load_of_plain rfl hplain rfl

/-- The run of this configuration on a console ends without a report, although its test cases can be
loaded, its approach is random and the report could be written. -/
theorem not_reports_misfit :
    let w := sampleSurroundings misfitValue
    LogFormat.ofName? "console" = some .console ∧ w.clock.NeverInterrupts ∧
      (EvalConfig.load w.files w.yaml w.environment EvalConfig.samplePath).outcome =
        .ok misfitConfig ∧
      misfitConfig.IsPlain ∧
      w.files.makeDirectory sampleOutput = (sampleMade, .ok ()) ∧
      (misfitConfig.cases.load sampleMade).outcome = .ok TestCase.samples ∧
      (∀ entry ∈ misfitConfig.approaches, entry.2.kind = ApproachConfig.randomKind) ∧
      (∀ bytes, ∃ written,
        sampleMade.write (EvaluationReport.path sampleOutput misfitConfig.name w.now) bytes =
          .ok written) ∧
      ((run EvalConfig.samplePath sampleOutput "console").execute w).1 = 1 ∧
      ¬∃ results failed, Reports w misfitConfig sampleMade sampleOutput results failed
        ((run EvalConfig.samplePath sampleOutput "console").execute w) := by
  intro w
  have hformat : LogFormat.ofName? "console" = some .console := rfl
  have hload : (EvalConfig.load w.files w.yaml w.environment EvalConfig.samplePath).outcome =
      .ok misfitConfig := outcome_load_misfit
  have hconfig : misfitConfig.IsPlain := isPlain_seeded "[/x]" rfl rfl rfl
  have hcases : (misfitConfig.cases.load sampleMade).outcome = .ok TestCase.samples := rfl
  have hkind : ∀ entry ∈ misfitConfig.approaches, entry.2.kind = ApproachConfig.randomKind :=
    List.forall_mem_singleton.2 rfl
  have hmisfit : ∃ name ∈ Named.names misfitConfig.approaches, Tag.fault? name ≠ none :=
    ⟨"[/x]", List.mem_cons_self, by decide +kernel⟩
  obtain ⟨hcode, hfiles⟩ :=
    execute_of_misfit hformat hload hconfig makeDirectory_sample hcases hkind hmisfit
  refine ⟨hformat, clock_sample _, hload, hconfig, makeDirectory_sample, hcases, hkind,
    fun bytes => ?_, hcode, ?_⟩
  · obtain ⟨place, hplace⟩ := write_sample bytes
    exact ⟨_, hplace⟩
  · rintro ⟨results, failed, hreports⟩
    obtain ⟨place, hplace⟩ :=
      write_sample ((reportOf w misfitConfig results).text.flatMap Utf8.encodePoint)
    have hsame : Except.ok (sampleMade ++
        [(place, .file ((reportOf w misfitConfig results).text.flatMap Utf8.encodePoint))]) =
          (.ok sampleMade : Except FileFault FileTree) :=
      hplace.symm.trans (hreports.written.trans (congrArg _ hfiles))
    exact List.cons_ne_nil _ _ (List.append_right_eq_self.1 (Except.ok.inj hsame))

end Command

end TypeBench
