import TypeBench.Command.Execution
import TypeBench.Proofs.Command.Steps
import TypeBench.Proofs.Config.Loaded
import TypeBench.Proofs.Evaluation.Reasons
import TypeBench.Proofs.Evaluation.Reproducibility

/-!
# Parts of a command

What each part of a command leaves, where it succeeds and where it ends the command. The parts
before the evaluation do not ask the parser or the clock for anything.

## Main results

* `Command.loadConfig_of_ok`, `Command.loadConfig_of_error`: loading a configuration.
* `Command.loadCases_of_ok`, `Command.loadCases_of_error`: loading its test cases.
* `Command.registerAll_of_random`, `Command.registerAll_of_unsupported`: making its approaches.
* `Command.evaluateAll_of_ok`, `Command.evaluateAll_of_error`: evaluating them.
-/

namespace TypeBench

open ParsingBaseline

theorem EvalConfig.IsPlain.givesPlainLabels {config : EvalConfig} (h : config.IsPlain)
    (name : Text) : Baseline.GivesPlainLabels (Command.optionsIn config name) := by
  by_cases hname : name ∈ Named.names config.approaches
  · obtain ⟨approach, hmem, hoptions⟩ := exists_optionsIn_eq hname
    rw [hoptions]
    exact h.labels _ hmem
  · have hnone : config.approaches.lookup name = none := by
      by_contra hsome
      exact hname ((Named.mem_names_iff name config.approaches).2 hsome)
    intro value labels hvalue
    rw [Command.optionsIn, hnone] at hvalue
    cases hvalue

namespace Command

open CommandStep

variable {w : Surroundings} {t : Transcript}

/-! ### Before the evaluation -/

theorem chooseLogFormat_of_ofName? {name : Text} {format : LogFormat}
    (h : LogFormat.ofName? name = some format) :
    chooseLogFormat w name t = .ok () { t with logFormat := format } := by
  rw [chooseLogFormat, h]
  rfl

/-- A configuration without lone surrogates is loaded, and its events are logged. -/
theorem loadConfig_of_ok {path : Path} {config : EvalConfig}
    (h : (EvalConfig.load t.files w.yaml w.environment path).outcome = .ok config)
    (hconfig : config.IsPlain) :
    loadConfig w path t =
      .ok config (t.add ((config.events.map ConfigEvent.logLine).map .log)) := by
  have hlog : logAll w.now (config.events.map ConfigEvent.logLine) t =
      .ok () (t.add ((config.events.map ConfigEvent.logLine).map .log)) := by
    refine logAll_of_check fun line hline => ?_
    obtain ⟨event, hevent, rfl⟩ := List.mem_map.1 hline
    exact LogFormat.check_of_isPlain (EvalConfig.isPlain_of_mem_events h hconfig event hevent) _ _
  rw [loadConfig, files_bind]
  rw [EvalConfig.events_load h, bind_of_ok hlog, h]
  rfl

/-- A configuration that cannot be loaded ends the command, whether or not that can be explained. -/
theorem loadConfig_of_error {path : Path} {failure : Failure}
    (h : (EvalConfig.load t.files w.yaml w.environment path).outcome = .error failure) :
    ∃ ending t', loadConfig w path t = .error ending t' ∧ ending.IsFailure ∧
      t'.files = t.files := by
  have hlog : logAll w.now [] t = .ok () t := rfl
  rw [loadConfig, files_bind]
  rw [EvalConfig.events_of_error h, List.map_nil, bind_of_ok hlog, h]
  cases failure with
  | bench error =>
    cases hprint : t.print w.hasStyles error.message with
    | error second =>
      have hfailed : print w.hasStyles error.message t = .error (.halted (.failed second)) t := by
        rw [print, hprint]
        rfl
      exact ⟨_, t, bind_of_error hfailed _, rfl, rfl⟩
    | ok printed =>
      have hprinted : print w.hasStyles error.message t = .ok () printed := by
        rw [print, hprint]
      exact ⟨_, printed, bind_of_ok hprinted _, rfl, Transcript.files_of_print hprint⟩
  | _ => exact ⟨_, t, rfl, rfl, rfl⟩

theorem makeDirectory_of_ok {path : Path} {made : FileTree}
    (h : t.files.makeDirectory path = (made, .ok ())) :
    makeDirectory path t = .ok () { t with files := made } := by
  rw [makeDirectory, files_bind, h]
  rfl

/-- Test cases are loaded, and the events on the way are logged. -/
theorem loadCases_of_ok {source : CaseSourceConfig} {cases : List TestCase}
    (h : (source.load t.files w.maxDepth).outcome = .ok cases)
    (hpath : ∀ path ∈ source.path, ∀ name ∈ path.names, name.hasSurrogate = false) :
    loadCases w source t = .ok cases
      (t.add (((source.load t.files w.maxDepth).events.map CaseEvent.logLine).map .log)) := by
  have hlog : logAll w.now ((source.load t.files w.maxDepth).events.map CaseEvent.logLine) t =
      .ok ()
        (t.add (((source.load t.files w.maxDepth).events.map CaseEvent.logLine).map .log)) := by
    refine logAll_of_check fun line hline => ?_
    obtain ⟨event, hevent, rfl⟩ := List.mem_map.1 hline
    exact LogFormat.check_of_isPlain
      ((CaseSourceConfig.isPlain_of_load h hpath).2 event hevent) _ _
  rw [loadCases, files_bind]
  rw [bind_of_ok hlog, h]
  rfl

/-- Test cases that cannot be loaded end the command, after some of the events are logged. -/
theorem loadCases_of_error {source : CaseSourceConfig} {failure : Failure}
    (h : (source.load t.files w.maxDepth).outcome = .error failure) :
    ∃ ending done, done <+: (source.load t.files w.maxDepth).events.map CaseEvent.logLine ∧
      loadCases w source t = .error ending (t.add (done.map .log)) ∧ ending.IsFailure := by
  obtain ⟨done, hdone, hlog | ⟨second, hlog⟩⟩ :=
    exists_logAll w.now ((source.load t.files w.maxDepth).events.map CaseEvent.logLine) t
  · refine ⟨.halted (.failed failure), done, hdone, ?_, rfl⟩
    rw [loadCases, files_bind]
    rw [bind_of_ok hlog, h]
    rfl
  · refine ⟨.halted (.failed second), done, hdone, ?_, rfl⟩
    rw [loadCases, files_bind]
    exact bind_of_error hlog _

/-! ### Making approaches -/

/-- The lines of the log about approaches that are registered for the first time. -/
def registeredLines (names : List Text) : List LogLine :=
  names.map fun name => (EvaluationEvent.registered name false).logLine

/-- An approach of a new name is registered, and that is logged. -/
theorem register_of_notMem {bench : Bench ParsingBaseline} {a : ParsingBaseline} {name : Text}
    (hname : a.baseline.name = name) (hnew : name ∉ bench.names)
    (hplain : name.hasSurrogate = false) :
    register w bench a t = .ok (bench.add a) (t.add ((registeredLines [name]).map .log)) := by
  have hfind : bench.find? name = none := by
    by_contra hsome
    exact hnew ((Named.mem_names_iff name bench.registry).2 hsome)
  have hevent : (bench.registered a : EvaluationEvent Binary64) = .registered name false := by
    change EvaluationEvent.registered a.baseline.name (bench.find? a.baseline.name).isSome = _
    rw [hname, hfind]
    rfl
  have hcheck : t.logFormat.check w.now (EvaluationEvent.registered name false).logLine = .ok () :=
    LogFormat.check_of_isPlain (EvaluationEvent.isPlain_registered hplain false) _ _
  rw [register, hevent, bind_of_ok (log_of_check hcheck)]
  rfl

theorem names_add {bench : Bench ParsingBaseline} {a : ParsingBaseline} {name : Text}
    (hname : a.baseline.name = name) (hnew : name ∉ bench.names) :
    (bench.add a).names = bench.names ++ [name] := by
  subst hname
  have hcontains : ¬bench.names.contains a.baseline.name = true := mt List.contains_iff_mem.1 hnew
  exact (Bench.names_keep ..).trans (if_neg hcontains)

variable {name : Text} {config : ApproachConfig} {rest : Named ApproachConfig}
  {bench : Bench ParsingBaseline}

/-- A random approach of a new name is made and registered, and then the others are. -/
theorem registerAll_cons_of_random (hkind : config.kind = ApproachConfig.randomKind)
    (hnew : name ∉ bench.names) (hplain : name.hasSurrogate = false) (entropy : Twister) :
    ∃ made : Bench ParsingBaseline, made.names = bench.names ++ [name] ∧
      registerAll w ((name, config) :: rest) entropy bench t =
        registerAll w rest entropy.split.2 made (t.add ((registeredLines [name]).map .log)) := by
  have hcreate : Baseline.create name config entropy.split.1 =
      .ok (Baseline.start name entropy.split.1) := if_pos hkind
  refine ⟨bench.add ⟨Baseline.start name entropy.split.1, w.parser⟩, names_add rfl hnew, ?_⟩
  rw [registerAll, hcreate]
  exact bind_of_ok (register_of_notMem rfl hnew hplain) _

theorem registerAll_cons_of_unsupported (hkind : config.kind ≠ ApproachConfig.randomKind)
    (entropy : Twister) :
    registerAll w ((name, config) :: rest) entropy bench t =
      .error (.halted (.failed (.bench (.unsupportedApproach config.kind)))) t := by
  have hcreate : Baseline.create name config entropy.split.1 =
      .error (.bench (.unsupportedApproach config.kind)) := if_neg hkind
  rw [registerAll, hcreate]
  rfl

/-- A name that comes later is new after another new name, too. -/
theorem nodup_snoc_append {names later : List Text} (h : (names ++ name :: later).Nodup) :
    name ∉ names ∧ (names ++ [name] ++ later).Nodup := by
  refine ⟨fun hmem => ?_, by rwa [List.append_assoc]⟩
  exact (List.nodup_append.1 h).2.2 name hmem name List.mem_cons_self rfl

/-- Approaches of different new names are made and registered if all of them are random. -/
theorem registerAll_of_random {entries : Named ApproachConfig}
    (hkind : ∀ entry ∈ entries, entry.2.kind = ApproachConfig.randomKind)
    (hplain : ∀ name ∈ Named.names entries, name.hasSurrogate = false)
    (hnames : (bench.names ++ Named.names entries).Nodup) (entropy : Twister) :
    ∃ built, registerAll w entries entropy bench t =
        .ok built (t.add ((registeredLines (Named.names entries)).map .log)) ∧
      built.names = bench.names ++ Named.names entries := by
  induction entries generalizing bench entropy t with
  | nil =>
    refine ⟨bench, ?_, (List.append_nil _).symm⟩
    exact congrArg (EStateM.Result.ok bench) t.add_nil.symm
  | cons entry rest ih =>
    obtain ⟨name, config⟩ := entry
    obtain ⟨hfirst, hrest⟩ := List.forall_mem_cons.1 hkind
    obtain ⟨hname, hlater⟩ := List.forall_mem_cons.1 hplain
    obtain ⟨hnew, hnodup⟩ := nodup_snoc_append hnames
    obtain ⟨made, hmade, heq⟩ :=
      registerAll_cons_of_random (w := w) (t := t) hfirst hnew hname entropy
    rw [← hmade] at hnodup
    obtain ⟨built, hbuilt, hall⟩ :=
      ih (t := t.add ((registeredLines [name]).map .log)) hrest hlater hnodup entropy.split.2
    refine ⟨built, ?_, ?_⟩
    · rw [heq, hbuilt, Transcript.add_add]
      rfl
    · rw [hall, hmade, List.append_assoc]
      rfl

/-- An approach of an unsupported kind ends the command after those before it are registered. The
parser makes no difference then, nor does anything else that surrounds the command. -/
theorem registerAll_of_unsupported {entries : Named ApproachConfig}
    (hkind : ∃ entry ∈ entries, entry.2.kind ≠ ApproachConfig.randomKind)
    (hplain : ∀ name ∈ Named.names entries, name.hasSurrogate = false) (names : List Text)
    (hnames : (names ++ Named.names entries).Nodup) (entropy : Twister) (t : Transcript) :
    ∃ ending done, done <+: registeredLines (Named.names entries) ∧ ending.IsFailure ∧
      ∀ (w : Surroundings) (bench : Bench ParsingBaseline), bench.names = names →
        registerAll w entries entropy bench t = .error ending (t.add (done.map .log)) := by
  induction entries generalizing names entropy t with
  | nil =>
    obtain ⟨entry, hmem, -⟩ := hkind
    cases hmem
  | cons entry rest ih =>
    obtain ⟨name, config⟩ := entry
    by_cases hfirst : config.kind = ApproachConfig.randomKind
    · have hrest : ∃ entry ∈ rest, entry.2.kind ≠ ApproachConfig.randomKind := by
        obtain ⟨entry, hmem, hentry⟩ := hkind
        obtain rfl | hmem := List.mem_cons.1 hmem
        · exact absurd hfirst hentry
        · exact ⟨entry, hmem, hentry⟩
      obtain ⟨hname, hlater⟩ := List.forall_mem_cons.1 hplain
      obtain ⟨hnew, hnodup⟩ := nodup_snoc_append hnames
      obtain ⟨ending, done, hdone, hending, hall⟩ := ih hrest hlater _ hnodup entropy.split.2
        (t.add ((registeredLines [name]).map .log))
      refine ⟨ending, registeredLines [name] ++ done, ?_, hending, fun w bench hbench => ?_⟩
      · exact (List.prefix_cons_inj _).2 hdone
      · subst hbench
        obtain ⟨made, hmade, heq⟩ := registerAll_cons_of_random (w := w) (t := t)
          hfirst hnew hname entropy
        rw [heq, hall w made hmade, Transcript.add_add, List.map_append]
    · refine ⟨.halted (.failed (.bench (.unsupportedApproach config.kind))), [], List.nil_prefix,
        rfl, fun w bench _ => ?_⟩
      rw [List.map_nil, Transcript.add_nil]
      exact registerAll_cons_of_unsupported hfirst entropy

/-! ### The evaluation -/

/-- The evaluation of all approaches in a command. -/
def evaluation (w : Surroundings) (format : LogFormat) (bench : Bench ParsingBaseline)
    (cases : List TestCase) (optionsOf : Text → Options) :
    Turn Binary64 ParsingBaseline (Bench.Results Binary64) :=
  bench.evaluateAll ⟨w.clock, format.watch w.now, []⟩ cases optionsOf

variable {cases : List TestCase} {optionsOf : Text → Options}

/-- The lines that can be printed are printed. -/
theorem exists_logAll_accepted (now : Timestamp) (lines : List LogLine) (t : Transcript) :
    ∃ done : List LogLine, logAll now (lines.filter fun line => t.logFormat.accepts now line) t =
      .ok () (t.add (done.map .log)) := by
  refine ⟨_, logAll_of_check fun line hline => ?_⟩
  have haccepts : (t.logFormat.check now line).isOk = true := (List.mem_filter.1 hline).2
  cases hcheck : t.logFormat.check now line with
  | ok _ => rfl
  | error failure =>
    rw [hcheck] at haccepts
    cases haccepts

/-- An evaluation that comes to results, and whose watch ends well, only adds to the log. -/
theorem evaluateAll_of_ok {results : Bench.Results Binary64}
    (houtcome : (evaluation w t.logFormat bench cases optionsOf).outcome = .ok results)
    (hwatch : t.logFormat.watchEnd w.now
      (LogEntry.told (evaluation w t.logFormat bench cases optionsOf).world.log) = .ok ()) :
    ∃ lines : List LogLine,
      evaluateAll w bench cases optionsOf t = .ok results (t.add (lines.map .log)) := by
  rw [evaluation] at houtcome hwatch
  rw [evaluateAll, logFormat_bind]
  generalize bench.evaluateAll ⟨w.clock, t.logFormat.watch w.now, []⟩ cases optionsOf = turn at *
  obtain ⟨done, hlog⟩ := exists_logAll_accepted w.now (turn.world.log.filterMap logLine?) t
  refine ⟨done, (bind_of_ok hlog _).trans ?_⟩
  rw [hwatch, houtcome]
  rfl

/-- An evaluation that comes to an early end, or whose watch does, ends the command. -/
theorem evaluateAll_of_error
    (h : (∃ halt, (evaluation w t.logFormat bench cases optionsOf).outcome = .error halt) ∨
      t.logFormat.watchEnd w.now
        (LogEntry.told (evaluation w t.logFormat bench cases optionsOf).world.log) ≠ .ok ()) :
    ∃ ending t', evaluateAll w bench cases optionsOf t = .error ending t' ∧ ending.IsFailure ∧
      t'.files = t.files := by
  rw [evaluation] at h
  rw [evaluateAll, logFormat_bind]
  generalize bench.evaluateAll ⟨w.clock, t.logFormat.watch w.now, []⟩ cases optionsOf = turn at *
  obtain ⟨done, hlog⟩ := exists_logAll_accepted w.now (turn.world.log.filterMap logLine?) t
  cases hwatch : t.logFormat.watchEnd w.now (LogEntry.told turn.world.log) with
  | error failure =>
    exact ⟨.halted (.failed failure), t.add (done.map .log), bind_of_ok hlog _, rfl, rfl⟩
  | ok _ =>
    obtain ⟨halt, houtcome⟩ := h.resolve_right fun hne => hne hwatch
    refine ⟨.halted halt, t.add (done.map .log), (bind_of_ok hlog _).trans ?_, rfl, rfl⟩
    rw [houtcome]
    rfl

end Command

end TypeBench
