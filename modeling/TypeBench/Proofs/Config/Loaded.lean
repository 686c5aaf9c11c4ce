import TypeBench.Config.Loading
import TypeBench.Proofs.Approach.PlainLabels
import TypeBench.Proofs.Config.Missing
import TypeBench.Proofs.Report.LogLines
import TypeBench.Proofs.Validation.Accepted

/-!
# Loaded configurations

A configuration that is loaded was read from a value that every rule accepted. So the names of its
approaches are different, and its own name and its version have no lone surrogates.

## Main definitions

* `EvalConfig.IsPlain`: a configuration without lone surrogates.

## Main results

* `EvalConfig.nodup_names_of_check`, `EvalConfig.nodup_names_of_load`: the names of the approaches.
* `EvalConfig.hasSurrogate_of_load`: the name and the version.
* `EvalConfig.isPlain_of_mem_events`: what is logged while a configuration is loaded.
-/

namespace TypeBench.EvalConfig

/-- A configuration without lone surrogates in the names and labels of its approaches and in the
path of its test cases. Nothing else in it that is shown can have any. -/
structure IsPlain (config : EvalConfig) : Prop where
  names : ∀ name ∈ Named.names config.approaches, name.hasSurrogate = false
  labels : ∀ entry ∈ config.approaches, Baseline.GivesPlainLabels entry.2.options
  path : ∀ path ∈ config.cases.path, ∀ name ∈ path.names, name.hasSurrogate = false

variable {files : FileTree} {yaml : YamlReader} {env : Environment} {path : Path}
  {config : EvalConfig}

/-- A mapping that writes a configuration is accepted. -/
theorem check_of_ofMapping {value : Value} (h : ofMapping value = .ok config) :
    check value = .valid config := by
  rw [ofMapping] at h
  cases hreport : (check value).report recordName with
  | error report =>
    rw [hreport] at h
    cases h
  | ok config' =>
    rw [hreport] at h
    rw [Checked.valid_of_report hreport, Except.ok.inj h]

/-- A configuration that is loaded was read from a value. -/
theorem exists_check_of_load (h : (load files yaml env path).outcome = .ok config) :
    ∃ value, check value = .valid config := by
  rw [outcome_load] at h
  obtain ⟨value, hvalue⟩ : ∃ value, ofValue env value = .ok config := by
    cases hread : read files yaml path with
    | error failure =>
      rw [hread] at h
      cases h
    | ok value =>
      rw [hread] at h
      exact ⟨value, h⟩
  cases value with
  | map entries =>
    rw [ofValue] at hvalue
    split at hvalue
    · cases hinterpolate : (Value.map entries).interpolate env with
      | error name =>
        rw [hinterpolate] at hvalue
        cases hvalue
      | ok value =>
        rw [hinterpolate] at hvalue
        exact ⟨value, check_of_ofMapping hvalue⟩
    · cases hvalue
  | _ => cases hvalue

/-- The fields of a configuration that is accepted were accepted. -/
theorem fields_of_check {value : Value} (h : check value = .valid config) :
    (∃ value, Field.nonEmptyText value = .valid config.name) ∧
      (∃ value, Field.nonEmptyText value = .valid config.version) ∧
      ∃ value, Field.nonEmptyMapping ApproachConfig.check value = .valid config.approaches := by
  obtain ⟨all, hall⟩ := Field.exists_of_record h
  obtain ⟨_, approaches, hmore, happroaches, rfl⟩ := Checked.exists_of_seq hall
  obtain ⟨_, scoring, hfirst, -, rfl⟩ := Checked.exists_of_seq hmore
  obtain ⟨_, cases, hboth, -, rfl⟩ := Checked.exists_of_seq hfirst
  obtain ⟨_, version, hone, hversion, rfl⟩ := Checked.exists_of_seq hboth
  obtain ⟨name, hname, rfl⟩ := Checked.exists_of_map hone
  exact ⟨Field.exists_of_required hname, Field.exists_of_required hversion,
    Field.exists_of_required happroaches⟩

/-- The names of the approaches are different. -/
theorem nodup_names_of_check {value : Value} (h : check value = .valid config) :
    (Named.names config.approaches).Nodup := by
  obtain ⟨-, -, value, happroaches⟩ := fields_of_check h
  exact Field.nodup_names_of_mapping happroaches

theorem nodup_names_of_load (h : (load files yaml env path).outcome = .ok config) :
    (Named.names config.approaches).Nodup := by
  obtain ⟨value, hvalue⟩ := exists_check_of_load h
  exact nodup_names_of_check hvalue

/-- The name and the version have no lone surrogates. -/
theorem hasSurrogate_of_load (h : (load files yaml env path).outcome = .ok config) :
    config.name.hasSurrogate = false ∧ config.version.hasSurrogate = false := by
  obtain ⟨value, hvalue⟩ := exists_check_of_load h
  obtain ⟨⟨_, hname⟩, ⟨_, hversion⟩, -⟩ := fields_of_check hvalue
  exact ⟨(Field.nonEmptyText_eq_valid hname).2, (Field.nonEmptyText_eq_valid hversion).2⟩

/-- What is logged of a configuration without lone surrogates. -/
theorem isPlain_of_mem_events (h : (load files yaml env path).outcome = .ok config)
    (hconfig : config.IsPlain) : ∀ event ∈ config.events, event.logLine.IsPlain := by
  obtain ⟨hname, hversion⟩ := hasSurrogate_of_load h
  refine List.forall_mem_append.2 ⟨fun event hevent => ?_, List.forall_mem_singleton.2 ?_⟩
  · obtain ⟨entry, hentry, rfl⟩ := List.mem_map.1 hevent
    refine ConfigEvent.isPlain_unseeded (hconfig.names entry.1 ?_)
    exact List.mem_map_of_mem (List.mem_filter.1 hentry).1
  · exact ConfigEvent.isPlain_loaded hname hversion

/-- Nothing happens while a configuration is loaded that cannot be. -/
theorem events_of_error {failure : Failure}
    (h : (load files yaml env path).outcome = .error failure) :
    (load files yaml env path).events = [] := by
  rw [load] at h ⊢
  split at h
  · cases h
  · rfl

end TypeBench.EvalConfig
