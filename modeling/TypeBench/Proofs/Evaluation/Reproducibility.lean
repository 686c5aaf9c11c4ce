import TypeBench.Command.Execution
import TypeBench.Proofs.Approach.Prediction
import TypeBench.Proofs.Approach.Seeding
import TypeBench.Proofs.Config.Missing
import TypeBench.Proofs.Evaluation.Repetition

/-!
# Reproducible evaluations

A configuration that is loaded without a warning gives every random approach a seed. Its evaluations
can then be repeated: with approaches that are made anew, whatever their generators are then, and
with an approach that was used in between. Nothing but the measured times differs.

## Main definitions

* `Bench.Registers`: approaches made from a configuration and registered.

## Main results

* `EvalConfig.unseeded_mem_events_iff`: the warnings name the random approaches without a seed.
* `Command.registers_of_registerAll`: the command registers approaches in this way.
* `EvalConfig.evaluations_reproducible`: evaluations of a configuration without a warning.
-/

namespace TypeBench

/-! ### Configurations without a warning -/

namespace EvalConfig

variable {files : FileTree} {yaml : YamlReader} {env : Environment} {path : Path}
  {config : EvalConfig}

/-- The events of a configuration that could be loaded. -/
theorem events_load (h : (load files yaml env path).outcome = .ok config) :
    (load files yaml env path).events = config.events := by
  rw [load] at h ⊢
  cases hread : (read files yaml path).bind (ofValue env) with
  | ok config' =>
    rw [hread] at h
    rw [Except.ok.inj h]
  | error failure =>
    rw [hread] at h
    cases h

/-- The warnings name the random approaches without a seed. -/
theorem unseeded_mem_events_iff {name : Text} :
    ConfigEvent.unseeded name ∈ config.events ↔
      ∃ approach, (name, approach) ∈ config.approaches ∧ approach.isUnseeded := by
  rw [events, List.mem_append, List.mem_map]
  constructor
  · rintro (⟨⟨other, approach⟩, hmem, hname⟩ | hloaded)
    · obtain rfl := ConfigEvent.unseeded.inj hname
      obtain ⟨hmem, hunseeded⟩ := List.mem_filter.1 hmem
      exact ⟨approach, hmem, hunseeded⟩
    · cases List.mem_singleton.1 hloaded
  · rintro ⟨approach, hmem, hunseeded⟩
    exact .inl ⟨(name, approach), List.mem_filter.2 ⟨hmem, hunseeded⟩, rfl⟩

end EvalConfig

theorem ApproachConfig.isSeeded_of_not_isUnseeded {config : ApproachConfig}
    (hkind : config.kind = randomKind) (h : ¬config.isUnseeded) :
    Baseline.IsSeeded config.options := by
  have hnull : ((Value.get? seedOption config.options).getD .null).isNull = false := by
    simpa [isUnseeded, hkind] using h
  cases hvalue : Value.get? seedOption config.options with
  | none =>
    rw [hvalue] at hnull
    cases hnull
  | some value =>
    rw [hvalue] at hnull
    exact ⟨value, hvalue, hnull⟩

/-! ### Approaches that are made anew -/

/-- The settings of a baseline that was made with a name and not set up. -/
def Baseline.startSetup (name : Text) : Setup := ⟨name, defaultLabels, 1, none⟩

/-- What is made from a configuration is a random approach with these settings. -/
theorem Baseline.create_ok {name : Text} {config : ApproachConfig} {entropy : Twister}
    {b : Baseline} (h : create name config entropy = .ok b) :
    config.kind = ApproachConfig.randomKind ∧ b.setup = startSetup name := by
  rw [create] at h
  split at h
  · obtain rfl := Except.ok.inj h
    exact ⟨‹_›, rfl⟩
  · cases h

namespace Bench

/-- Approaches are made from the entries of a configuration and registered one after the other, each
with generators of its own in any state. -/
inductive Registers (parser : SourceParser) :
    Bench ParsingBaseline → Named ApproachConfig → Bench ParsingBaseline → Prop
  | nil (bench : Bench ParsingBaseline) : Registers parser bench [] bench
  | cons {bench bench' : Bench ParsingBaseline} {name : Text} {config : ApproachConfig}
      {rest : Named ApproachConfig} {given : Twister} {b : Baseline}
      (hcreate : Baseline.create name config given = .ok b) (generator entropy : Twister)
      (h : Registers parser
        (bench.add ⟨{ b with generator := generator, entropy := entropy }, parser⟩) rest bench') :
      Registers parser bench ((name, config) :: rest) bench'

variable {parser : SourceParser} {entries : Named ApproachConfig} {optionsOf : Text → Options}
  {bench bench' built built' : Bench ParsingBaseline}

/-- Only random approaches can be made. -/
theorem Registers.kind_eq (h : Registers parser bench entries built) :
    ∀ entry ∈ entries, entry.2.kind = ApproachConfig.randomKind := by
  induction h with
  | nil => exact nofun
  | cons hcreate generator entropy _ ih =>
    exact List.forall_mem_cons.2 ⟨(Baseline.create_ok hcreate).1, ih⟩

/-- Benches on which approaches are made from the same entries cannot be told apart. -/
theorem Registers.bench_match (h : Registers parser bench entries built)
    (h' : Registers parser bench' entries built')
    (hseeded : ∀ entry ∈ entries, Baseline.IsSeeded (optionsOf entry.1))
    (hmatch : bench.Match (fun name => ParsingBaseline.Ready (optionsOf name)) bench') :
    built.Match (fun name => ParsingBaseline.Ready (optionsOf name)) built' := by
  induction h generalizing bench' with
  | nil =>
    cases h'
    exact hmatch
  | @cons _ _ name config rest given b hcreate generator entropy _ ih =>
    obtain ⟨hfirst, hrest⟩ := List.forall_mem_cons.1 hseeded
    cases h' with
    | @cons _ _ _ _ _ given' b' hcreate' generator' entropy' h' =>
      obtain ⟨-, hsetup⟩ := Baseline.create_ok hcreate
      obtain ⟨-, hsetup'⟩ := Baseline.create_ok hcreate'
      have hsame : b.setup = b'.setup := hsetup.trans hsetup'.symm
      have hname : b.name = name := congrArg Baseline.Setup.name hsetup
      refine ih h' hrest (hmatch.add (congrArg Baseline.Setup.name hsame) ?_)
      refine ParsingBaseline.ready_of_setup_eq ?_ rfl hsame
      change Baseline.IsSeeded (optionsOf b.name)
      rwa [hname]

end Bench

/-! ### The command -/

namespace Command

open CommandStep

variable {w : Surroundings} {t t' : Transcript}

theorem eq_add_of_register_ok {bench bench' : Bench ParsingBaseline} {a : ParsingBaseline}
    (h : register w bench a t = .ok bench' t') : bench' = bench.add a := by
  change EStateM.bind (log w.now _) (fun _ => pure (bench.add a)) t = .ok bench' t' at h
  rw [EStateM.bind] at h
  split at h
  · exact (EStateM.Result.ok.inj h).1.symm
  · cases h

/-- The command registers approaches that are made from its configuration. -/
theorem registers_of_registerAll {entries : Named ApproachConfig} {entropy : Twister}
    {bench built : Bench ParsingBaseline}
    (h : registerAll w entries entropy bench t = .ok built t') :
    Bench.Registers w.parser bench entries built := by
  induction entries generalizing entropy bench t with
  | nil =>
    obtain ⟨rfl, -⟩ := EStateM.Result.ok.inj h
    exact .nil _
  | cons entry rest ih =>
    obtain ⟨name, config⟩ := entry
    cases hcreate : Baseline.create name config entropy.split.1 with
    | error failure =>
      rw [registerAll, hcreate] at h
      cases h
    | ok b =>
      have hrun : registerAll w ((name, config) :: rest) entropy bench =
          EStateM.bind (register w bench ⟨b, w.parser⟩) (registerAll w rest entropy.split.2) := by
        rw [registerAll, hcreate]
        rfl
      rw [hrun, EStateM.bind] at h
      split at h
      · rename_i hregister
        obtain rfl := eq_add_of_register_ok hregister
        exact .cons hcreate b.generator b.entropy (ih h)
      · cases h

end Command

/-! ### Evaluations of a configuration -/

namespace EvalConfig

variable {files : FileTree} {yaml : YamlReader} {env : Environment} {path : Path}
  {config : EvalConfig}

/-- Without a warning, every random approach has a seed. -/
theorem isSeeded_of_unwarned (hload : (load files yaml env path).outcome = .ok config)
    (hunwarned : ∀ name, ConfigEvent.unseeded name ∉ (load files yaml env path).events)
    {name : Text} {approach : ApproachConfig} (hmem : (name, approach) ∈ config.approaches)
    (hkind : approach.kind = ApproachConfig.randomKind) : Baseline.IsSeeded approach.options := by
  rw [events_load hload] at hunwarned
  refine approach.isSeeded_of_not_isUnseeded hkind fun hunseeded => ?_
  exact hunwarned name (unseeded_mem_events_iff.2 ⟨approach, hmem, hunseeded⟩)

/-- The options of a name are those of one of the entries. -/
theorem exists_optionsIn_eq {name : Text} (h : name ∈ Named.names config.approaches) :
    ∃ approach, (name, approach) ∈ config.approaches ∧
      Command.optionsIn config name = approach.options := by
  rw [Command.optionsIn]
  generalize config.approaches = entries at h
  induction entries with
  | nil => cases h
  | cons entry rest ih =>
    obtain ⟨other, approach⟩ := entry
    rw [Named.lookup_cons]
    by_cases hname : name = other
    · subst hname
      rw [if_pos rfl]
      exact ⟨approach, List.mem_cons_self, rfl⟩
    · rw [if_neg hname]
      obtain ⟨found, hmem, hfound⟩ := ih ((List.mem_cons.1 h).resolve_left hname)
      exact ⟨found, List.mem_cons_of_mem _ hmem, hfound⟩

/-- **Reproducible evaluations.** Where a configuration is loaded without a warning, evaluations of
all approaches that are made from it come to the same results but for times, whatever the generators
of the approaches were, and so do two evaluations of one approach, whatever it was used for before
and in between. The clocks are steady, and the observers do not heed the times; if they never fail,
there are results. -/
theorem evaluations_reproducible (hload : (load files yaml env path).outcome = .ok config)
    (hunwarned : ∀ name, ConfigEvent.unseeded name ∉ (load files yaml env path).events)
    (parser : SourceParser) (policy : ScoringPolicy) (cases : List TestCase)
    {w w' : World Binary64} (hworld : w.Match w') :
    (∀ bench bench', Bench.Registers parser (.empty policy) config.approaches bench →
      Bench.Registers parser (.empty policy) config.approaches bench' →
      (bench.evaluateAll w cases (Command.optionsIn config)).outcome.map Bench.Results.untimed =
          (bench'.evaluateAll w' cases (Command.optionsIn config)).outcome.map
            Bench.Results.untimed ∧
        (w.observer.NeverFails →
          ∃ results, (bench.evaluateAll w cases (Command.optionsIn config)).outcome =
            .ok results)) ∧
    ∀ name approach, (name, approach) ∈ config.approaches →
      approach.kind = ApproachConfig.randomKind →
      ∀ (bench : Bench ParsingBaseline) (label : Text) (first : Registration ParsingBaseline),
        bench.find? label = some first →
        ∃ used, (bench.evaluate w label cases approach.options).bench.find? label = some used ∧
          ∀ (bench' : Bench ParsingBaseline) (second : Registration ParsingBaseline),
            bench'.policy = bench.policy → bench'.find? label = some second →
            Approach.Interlude Binary64 approach.options used.approach second.approach →
            (bench.evaluate w label cases approach.options).outcome.map
                EvaluationResult.untimed =
              (bench'.evaluate w' label cases approach.options).outcome.map
                EvaluationResult.untimed := by
  constructor
  · intro bench bench' hbench hbench'
    -- An approach could be made from every entry, so every entry is random, and so it has a seed.
    have hseeded : ∀ entry ∈ config.approaches,
        Baseline.IsSeeded (Command.optionsIn config entry.1) := by
      intro entry hentry
      obtain ⟨approach, hmem, hoptions⟩ := exists_optionsIn_eq (List.mem_map_of_mem hentry)
      rw [hoptions]
      exact isSeeded_of_unwarned hload hunwarned hmem (hbench.kind_eq _ hmem)
    have hmatch := hbench.bench_match hbench' hseeded (Bench.match_empty policy)
    refine ⟨?_, fun hobserver => ?_⟩
    · exact (Bench.evaluateAll_match (fun name => ParsingBaseline.reproduces _) hmatch hworld
        cases).outcome
    · exact Bench.evaluateAll_ok ParsingBaseline.neverInterrupts _ cases bench hworld.clock
        hobserver
  · intro name approach hmem hkind bench label first hfirst
    have hseeded := isSeeded_of_unwarned hload hunwarned hmem hkind
    obtain ⟨used, hused, hfirstUsed⟩ := Bench.exists_used hfirst w cases approach.options
    refine ⟨used, hused, fun bench' second hpolicy hsecond hbetween => ?_⟩
    have hready : ParsingBaseline.Ready approach.options first.approach second.approach :=
      ParsingBaseline.ready_of_used hseeded (hfirstUsed.trans hbetween.used)
    exact (Bench.evaluate_alike (ParsingBaseline.reproduces approach.options) hpolicy hworld hfirst
      hsecond hready cases).1

/-- The place of a configuration. -/
def samplePath : Path := ⟨0, ["eval.yaml"]⟩

/-- Files with something at this place. -/
def sampleFiles : FileTree := [(.ofNames ["eval.yaml"], .file [0x61])]

/-- What is read there: one random approach with a seed. -/
def seededValue : Value :=
  .ofFields [("name", "demo"), ("version", "1"),
    ("approaches", .ofFields [("baseline",
      .ofFields [("type", "random"), ("options", .ofFields [("seed", .int 7)])])])]

/-- The configuration that it writes. -/
def seededConfig : EvalConfig where
  name := "demo"
  version := "1"
  cases := .default
  scoring := ⟨.lenient⟩
  approaches := [("baseline", ⟨ApproachConfig.randomKind, Value.fieldEntries [("seed", .int 7)]⟩)]

theorem outcome_load_seeded :
    (load sampleFiles (fun _ => .value seededValue) [] samplePath).outcome = .ok seededConfig := by
  have hplain : ∀ t ∈ seededValue.texts, ('$' : CodePoint) ∉ t := by decide
  exact outcome_load_of_plain rfl hplain rfl

/-- A bench with the approach of this configuration, with its generators in a state. -/
def seededBench (state : Twister) : Bench ParsingBaseline :=
  (Bench.empty .strict).add
    ⟨{ Baseline.start "baseline" state with generator := state, entropy := state },
      Baseline.lostParser⟩

theorem registers_seeded (state : Twister) :
    Bench.Registers Baseline.lostParser (.empty .strict) seededConfig.approaches
      (seededBench state) := by
  have hcreate : Baseline.create "baseline"
      ⟨ApproachConfig.randomKind, Value.fieldEntries [("seed", .int 7)]⟩ state =
        .ok (Baseline.start "baseline" state) := rfl
  exact .cons hcreate state state (.nil _)

/-- A world whose clock goes on showing zero. -/
def stillWorld : World Binary64 := ⟨.ofReadings (Clock.measuredReadings []), .silent, []⟩

/-- A world whose clock shows one second and then three. -/
def movingWorld : World Binary64 :=
  ⟨.ofReadings (Clock.measuredReadings [.ofInt 1, .ofInt 3]), .silent, []⟩

theorem match_still_moving : stillWorld.Match movingWorld where
  clock := Clock.steady_ofReadings nofun .nil
  clock' := Clock.steady_ofReadings (by decide +kernel) (by decide +kernel)
  observers := Observer.alikeAfter_of_neverFails Observer.silent_neverFails
    Observer.silent_neverFails

/-- Two benches with generators in different states come to the same results, and so does the first
one after its approach was disposed of once more. -/
theorem evaluations_reproducible_seeded :
    let options := Command.optionsIn seededConfig
    let first := seededBench ⟨.replicate 624 0, 0⟩
    let second := seededBench ⟨.replicate 624 1, 5⟩
    (first.evaluateAll stillWorld Bench.oneCase options).outcome.map Bench.Results.untimed =
        (second.evaluateAll movingWorld Bench.oneCase options).outcome.map
          Bench.Results.untimed ∧
      (∃ results, (first.evaluateAll stillWorld Bench.oneCase options).outcome = .ok results) ∧
      ∃ used, (first.evaluate stillWorld "baseline" Bench.oneCase (options "baseline")).bench.find?
          "baseline" = some used ∧
        (first.evaluate stillWorld "baseline" Bench.oneCase (options "baseline")).outcome.map
            EvaluationResult.untimed =
          ((first.keep "baseline" { used with
              approach := (Approach.dispose used.approach).approach }).evaluate movingWorld
            "baseline" Bench.oneCase (options "baseline")).outcome.map
              EvaluationResult.untimed := by
  intro options first second
  have hunwarned : ∀ name, ConfigEvent.unseeded name ∉
      (load sampleFiles (fun _ => .value seededValue) [] samplePath).events := by
    intro name hmem
    have hevents : seededConfig.events = [.loaded "demo" "1"] := rfl
    rw [events_load outcome_load_seeded, hevents] at hmem
    cases List.mem_singleton.1 hmem
  obtain ⟨hall, hone⟩ := evaluations_reproducible outcome_load_seeded hunwarned
    Baseline.lostParser .strict Bench.oneCase match_still_moving
  obtain ⟨hsame, hok⟩ := hall first second (registers_seeded _) (registers_seeded _)
  have hoptions : options "baseline" = Value.fieldEntries [("seed", .int 7)] := rfl
  have hfind : ∃ r, first.find? "baseline" = some r :=
    ⟨_, (Named.lookup_put ..).trans (if_pos rfl)⟩
  obtain ⟨r, hr⟩ := hfind
  obtain ⟨used, hused, hagain⟩ := hone "baseline" _ List.mem_cons_self rfl first "baseline" r hr
  rw [hoptions]
  refine ⟨hsame, hok Observer.silent_neverFails, used, hused, ?_⟩
  let disposed : Registration ParsingBaseline :=
    { used with approach := (Approach.dispose used.approach).approach }
  have hkept : (first.keep "baseline" disposed).find? "baseline" = some disposed :=
    (Bench.find?_keep ..).trans (if_pos rfl)
  exact hagain (first.keep "baseline" disposed) disposed rfl hkept (.dispose .refl)

end EvalConfig

end TypeBench
