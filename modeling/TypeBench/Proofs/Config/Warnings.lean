import TypeBench.Proofs.Approach.Merging
import TypeBench.Proofs.Config.Loaded
import TypeBench.Proofs.Evaluation.Reproducibility

/-!
# Warnings of loading a configuration

A configuration that is loaded is told of last, after a warning for each random approach that has no
seed. The warnings are given from the options as they are written, before any approach is made. They
are right about the approaches: where a new one accepts its options, it was warned of if and only if
it is then without a seed. A configuration that is not loaded is not told of, and a variable that is
missing is reported before all that is wrong with the rest.

## Main results

* `ApproachConfig.isUnseeded_iff`: which entries are warned of.
* `Baseline.seed_configure_start_iff`: which options leave a new approach without a seed.
* `EvalConfig.exists_warned`: the events of a configuration.
* `EvalConfig.load_warnings`: failures, missing variables and warnings.
-/

namespace TypeBench

/-- An approach is warned of if it is random and its options give no seed. -/
theorem ApproachConfig.isUnseeded_iff {config : ApproachConfig} :
    config.isUnseeded = true ↔ config.kind = randomKind ∧ ¬Baseline.IsSeeded config.options := by
  constructor
  · intro h
    rw [isUnseeded, Bool.and_eq_true, decide_eq_true_eq] at h
    refine ⟨h.1, ?_⟩
    rintro ⟨value, hvalue, hnull⟩
    rw [hvalue, Option.getD_some, hnull] at h
    cases h.2
  · rintro ⟨hkind, hseed⟩
    by_contra h
    exact hseed (isSeeded_of_not_isUnseeded hkind h)

/-! ### Seeds of new approaches -/

namespace Baseline

/-- Options that do not offend give a seed if they hold a value for it that is not null. -/
theorem seed_given_eq_none_iff {options : Options} (h : ¬Offends options .seed) :
    (given options).seed.getD none = none ↔ ¬IsSeeded options := by
  cases hvalue : Value.get? ApproachConfig.seedOption options with
  | none => simp [given, IsSeeded, hvalue]
  | some value =>
    by_cases hnull : value.isNull = true
    · obtain rfl : value = .null := by
        cases value with
        | null => rfl
        | _ => cases hnull
      simp [given, IsSeeded, hvalue, seedOf, Value.isNull]
    · have hgiven : given? options Setting.seed.option = some value := by
        simp [given?, Setting.option, hvalue, hnull]
      obtain ⟨i, rfl⟩ := exists_int_of_not_isFaulty fun hfaulty => h ⟨value, hgiven, hfaulty⟩
      simp [given, IsSeeded, hvalue, seedOf, Value.isNull]

/-- A new approach that accepts its options is without a seed if and only if they give none. -/
theorem seed_configure_start_iff {name : Text} {entropy : Twister} {parser : SourceParser}
    {options : Options} (h : ((start name entropy).configure parser options).outcome = .ok ()) :
    ((start name entropy).configure parser options).approach.seed = none ↔ ¬IsSeeded options := by
  have hnone := not_offends_of_configure_ok h
  obtain ⟨hready, -⟩ := approach_of_configure_ok h
  have hsetup := (isAccepted_configure hready hnone (start name entropy)).setup_eq
  obtain ⟨-, -, -, hseed⟩ := Setup.mk.inj hsetup
  rw [hseed]
  exact seed_given_eq_none_iff (hnone .seed)

end Baseline

/-! ### Events -/

namespace EvalConfig

variable {files : FileTree} {yaml : YamlReader} {env : Environment} {path : Path}
  {config : EvalConfig}

theorem unseeded_mem_append_iff {approach name version : Text} {warned : List Text} :
    ConfigEvent.unseeded approach ∈ warned.map .unseeded ++ [.loaded name version] ↔
      approach ∈ warned := by
  rw [List.mem_append, List.mem_map_of_injective fun _ _ => ConfigEvent.unseeded.inj]
  exact or_iff_left fun h => by cases List.mem_singleton.1 h

/-- The names that are warned of are among those of the approaches and in their order. Where names
are different, they are exactly those of random approaches without a seed. -/
theorem exists_warned (hnodup : (Named.names config.approaches).Nodup) :
    ∃ warned : List Text,
      config.events = warned.map .unseeded ++ [.loaded config.name config.version] ∧
      warned.Sublist (Named.names config.approaches) ∧ warned.Nodup ∧
      ∀ entry ∈ config.approaches, entry.1 ∈ warned ↔
        entry.2.kind = ApproachConfig.randomKind ∧ ¬Baseline.IsSeeded entry.2.options := by
  let unseeded := config.approaches.filter fun entry => entry.2.isUnseeded
  have hsublist : (Named.names unseeded).Sublist (Named.names config.approaches) :=
    List.filter_sublist.map Prod.fst
  refine ⟨Named.names unseeded, ?_, hsublist, hnodup.sublist hsublist, fun entry hentry => ?_⟩
  · rw [events, Named.names, List.map_map]
    rfl
  · rw [← ApproachConfig.isUnseeded_iff, Named.names, List.mem_map]
    constructor
    · rintro ⟨other, hother, hname⟩
      obtain ⟨hmem, hunseeded⟩ := List.mem_filter.1 hother
      obtain rfl := List.inj_on_of_nodup_map hnodup hmem hentry hname
      exact hunseeded
    · intro hunseeded
      exact ⟨entry, List.mem_filter.2 ⟨hentry, hunseeded⟩, rfl⟩

/-- Missing variables are reported whatever else is wrong with the mapping. -/
theorem load_of_missing {entries : List (Value × Value)}
    (hread : read files yaml path = .ok (.map entries))
    (hmissing : (Value.map entries).missingVariables env ≠ []) :
    load files yaml env path =
      ⟨.error (.bench (.missingVariables ((Value.map entries).missingVariables env))), []⟩ := by
  rw [load, hread]
  dsimp only [bind, Except.bind]
  rw [ofValue_of_missing hmissing]

/-- **Warnings.** A configuration that is not loaded is not told of. A variable that is missing is
reported, whatever rules the rest breaks; only where none is missing do the rules decide. A
configuration that is loaded is told of once, after one warning for each random approach without a
seed, in their order. A new approach of any name that accepts the options of an entry was warned of
if and only if it is left without a seed. -/
theorem load_warnings (files : FileTree) (yaml : YamlReader) (env : Environment) (path : Path) :
    (∀ failure, (load files yaml env path).outcome = .error failure →
      (load files yaml env path).events = []) ∧
    (∀ entries, read files yaml path = .ok (.map entries) →
      ((∃ r, (Value.map entries).Refers r ∧ r.default = none ∧ env.lookup r.name = none) →
        ∃ names, (Value.map entries).AreMissing env names ∧
          load files yaml env path = ⟨.error (.bench (.missingVariables names)), []⟩) ∧
      ((∀ r, (Value.map entries).Refers r → r.default = none → env.lookup r.name ≠ none) →
        ∃ value, (Value.map entries).interpolate env = .ok value ∧
          (load files yaml env path).outcome = ofMapping value)) ∧
    ∀ config, (load files yaml env path).outcome = .ok config →
      (∃ warned : List Text,
        (load files yaml env path).events =
            warned.map .unseeded ++ [.loaded config.name config.version] ∧
          warned.Sublist (Named.names config.approaches) ∧ warned.Nodup ∧
          ∀ entry ∈ config.approaches, entry.1 ∈ warned ↔
            entry.2.kind = ApproachConfig.randomKind ∧ ¬Baseline.IsSeeded entry.2.options) ∧
      ∀ entry ∈ config.approaches, entry.2.kind = ApproachConfig.randomKind →
        ∀ (name : Text) (entropy : Twister) (parser : SourceParser),
          ((Baseline.start name entropy).configure parser entry.2.options).outcome = .ok () →
            (.unseeded entry.1 ∈ (load files yaml env path).events ↔
              ((Baseline.start name entropy).configure parser entry.2.options).approach.seed =
                none) := by
  refine ⟨fun failure => events_of_error, fun entries hread => ⟨?_, fun hset => ?_⟩,
    fun config hload => ?_⟩
  · rintro ⟨r, hr, hdefault, hunset⟩
    have hmem := Value.mem_missingVariables_iff.2 ⟨r, hr, rfl, hdefault, hunset⟩
    exact ⟨_, Value.areMissing_missingVariables env _,
      load_of_missing hread (List.ne_nil_of_mem hmem)⟩
  · have hnone : (Value.map entries).missingVariables env = [] := by
      refine List.eq_nil_iff_forall_not_mem.2 fun name hmem => ?_
      obtain ⟨r, hr, rfl, hdefault, hunset⟩ := Value.mem_missingVariables_iff.1 hmem
      exact hset r hr hdefault hunset
    obtain ⟨value, hvalue, hof⟩ := exists_ofValue_eq hnone
    refine ⟨value, hvalue, ?_⟩
    rw [outcome_load, hread]
    exact hof
  · obtain ⟨warned, hevents, hsublist, hnodup, hwarned⟩ :=
      exists_warned (nodup_names_of_load hload)
    rw [events_load hload]
    refine ⟨⟨warned, hevents, hsublist, hnodup, hwarned⟩,
      fun entry hentry hkind name entropy parser hok => ?_⟩
    rw [hevents, unseeded_mem_append_iff, hwarned entry hentry, and_iff_right hkind,
      Baseline.seed_configure_start_iff hok]

/-- A configuration with random approaches whose seed is zero, null and not there, and with an
approach of another type. -/
def mixedValue : Value :=
  .ofFields [("name", "demo"), ("version", "1"),
    ("approaches", .ofFields [
      ("zero", .ofFields [("type", "random"), ("options", .ofFields [("seed", .int 0)])]),
      ("null", .ofFields [("type", "random"), ("options", .ofFields [("seed", .null)])]),
      ("none", .ofFields [("type", "random")]),
      ("rules", .ofFields [("type", "manual")])])]

/-- The configuration that it writes. -/
def mixedConfig : EvalConfig where
  name := "demo"
  version := "1"
  cases := .default
  scoring := ⟨.lenient⟩
  approaches := [
    ("zero", ⟨ApproachConfig.randomKind, Value.fieldEntries [("seed", .int 0)]⟩),
    ("null", ⟨ApproachConfig.randomKind, Value.fieldEntries [("seed", .null)]⟩),
    ("none", ⟨ApproachConfig.randomKind, []⟩),
    ("rules", ⟨"manual", []⟩)]

theorem outcome_load_mixed :
    (load sampleFiles (fun _ => .value mixedValue) [] samplePath).outcome = .ok mixedConfig := by
  have hplain : ∀ t ∈ mixedValue.texts, ('$' : CodePoint) ∉ t := by decide
  exact outcome_load_of_plain rfl hplain rfl

theorem refers_home : (Value.map homeEntries).Refers ⟨"HOME", none⟩ := by
  have huser : Reference.IsProper ⟨Text.ofString "USER", some (Text.ofString "me")⟩ :=
    ⟨.intro rfl (List.all_eq_true.1 (by decide)), by rintro _ ⟨⟩; decide⟩
  have hhome : Reference.IsProper ⟨Text.ofString "HOME", none⟩ :=
    ⟨.intro rfl (List.all_eq_true.1 (by decide)), nofun⟩
  exact ⟨_, _, .entry List.mem_cons_self .text, .reference huser (.reference hhome .nil),
    List.mem_cons_of_mem _ List.mem_cons_self⟩

/-- A configuration without version and approaches is refused for its missing variable. In the other
one a seed that is null is warned of, and one that is zero is not. -/
theorem load_warnings_mixed :
    ((load sampleFiles (fun _ => .value (.map homeEntries)) [] samplePath).events = [] ∧
      ∃ names, (Value.map homeEntries).AreMissing [] names ∧
        (load sampleFiles (fun _ => .value (.map homeEntries)) [] samplePath).outcome =
          .error (.bench (.missingVariables names))) ∧
    (∃ value, mixedValue.interpolate [] = .ok value ∧ ofMapping value = .ok mixedConfig) ∧
    .unseeded "null" ∈ (load sampleFiles (fun _ => .value mixedValue) [] samplePath).events ∧
    .unseeded "zero" ∉ (load sampleFiles (fun _ => .value mixedValue) [] samplePath).events ∧
    .unseeded "rules" ∉ (load sampleFiles (fun _ => .value mixedValue) [] samplePath).events := by
  obtain ⟨hsilent, hmapping, -⟩ :=
    load_warnings sampleFiles (fun _ => .value (.map homeEntries)) [] samplePath
  obtain ⟨names, hnames, hload⟩ := (hmapping homeEntries rfl).1 ⟨_, refers_home, rfl, rfl⟩
  obtain ⟨-, hmapping', hloaded⟩ :=
    load_warnings sampleFiles (fun _ => .value mixedValue) [] samplePath
  have hplain : mixedValue.references = [] :=
    List.flatMap_eq_nil_iff.2 fun t ht =>
      Text.references_of_plain ((by decide : ∀ t ∈ mixedValue.texts, ('$' : CodePoint) ∉ t) t ht)
  obtain ⟨value, hvalue, hof⟩ := (hmapping' _ rfl).2 fun r hr => by
    have hmem := Value.mem_references_iff.2 hr
    rw [show (Value.map _).references = [] from hplain] at hmem
    cases hmem
  obtain ⟨⟨warned, hevents, -, -, hwarned⟩, hseed⟩ := hloaded mixedConfig outcome_load_mixed
  have hzero := hseed ("zero", ⟨ApproachConfig.randomKind, Value.fieldEntries [("seed", .int 0)]⟩)
    (by simp [mixedConfig]) rfl "zero" ⟨.replicate 624 0, 0⟩ Baseline.idleParser
    (congrArg (·.outcome) (Baseline.configure_of_ready rfl rfl))
  have hnull := hseed ("null", ⟨ApproachConfig.randomKind, Value.fieldEntries [("seed", .null)]⟩)
    (by simp [mixedConfig]) rfl "null" ⟨.replicate 624 0, 0⟩ Baseline.idleParser
    (congrArg (·.outcome) (Baseline.configure_of_ready rfl rfl))
  have hrules := hwarned ("rules", ⟨"manual", []⟩) (by simp [mixedConfig])
  refine ⟨⟨hsilent _ (by rw [hload]), names, hnames, by rw [hload]⟩,
    ⟨value, hvalue, hof ▸ outcome_load_mixed⟩, hnull.2 ?_, fun h => ?_, fun h => ?_⟩
  · rw [Baseline.configure_of_ready rfl rfl]
    rfl
  · have hnone := hzero.1 h
    rw [Baseline.configure_of_ready rfl rfl] at hnone
    cases hnone
  · rw [hevents, unseeded_mem_append_iff] at h
    exact absurd (hrules.1 h).1 (by decide)

end EvalConfig

end TypeBench
