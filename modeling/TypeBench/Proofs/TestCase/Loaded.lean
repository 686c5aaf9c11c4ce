import TypeBench.Proofs.Report.LogLines
import TypeBench.Proofs.TestCase.Ending
import TypeBench.Proofs.Validation.Accepted

/-!
# Loaded test cases

Test cases that are loaded are built in or were read from values that every rule accepted. So their
ids and the labels of their ground truth have no lone surrogates; their names may have some.

## Main definitions

* `TestCase.IsPlain`: a test case whose id and labels have no lone surrogates.

## Main results

* `CaseSourceConfig.isPlain_of_load`: test cases that are loaded, and what is logged on the way.
-/

namespace TypeBench

/-- A test case whose id and labels have no lone surrogates. -/
structure TestCase.IsPlain (case : TestCase) : Prop where
  id : case.id.hasSurrogate = false
  labels : ∀ truth ∈ case.truths, truth.label.hasSurrogate = false

/-- An entry of the ground truth that is accepted. -/
theorem GroundTruth.hasSurrogate_of_check {value : Value} {truth : GroundTruth}
    (h : check value = .valid truth) : truth.label.hasSurrogate = false := by
  obtain ⟨all, hall⟩ := Field.exists_of_record h
  obtain ⟨_, scope, hmore, -, rfl⟩ := Checked.exists_of_seq hall
  obtain ⟨_, position, hboth, -, rfl⟩ := Checked.exists_of_seq hmore
  obtain ⟨_, label, hone, hlabel, rfl⟩ := Checked.exists_of_seq hboth
  obtain ⟨identifier, -, rfl⟩ := Checked.exists_of_map hone
  obtain ⟨value, hvalue⟩ := Field.exists_of_required hlabel
  exact (Field.nonEmptyText_eq_valid hvalue).2

/-- A test case that is accepted. -/
theorem TestCase.isPlain_of_check {value : Value} {case : TestCase}
    (h : check value = .valid case) : case.IsPlain := by
  obtain ⟨all, hall⟩ := Field.exists_of_record h
  obtain ⟨_, details, hmore, -, rfl⟩ := Checked.exists_of_seq hall
  obtain ⟨_, truths, hfirst, htruths, rfl⟩ := Checked.exists_of_seq hmore
  obtain ⟨_, source, hboth, -, rfl⟩ := Checked.exists_of_seq hfirst
  obtain ⟨_, name, hone, -, rfl⟩ := Checked.exists_of_seq hboth
  obtain ⟨id, hid, rfl⟩ := Checked.exists_of_map hone
  constructor
  · obtain ⟨value, hvalue⟩ := Field.exists_of_required hid
    exact (Field.nonEmptyText_eq_valid hvalue).2
  · change ∀ truth ∈ truths, _
    rcases Field.exists_of_withDefault htruths with rfl | ⟨value, hvalue⟩
    · exact nofun
    · exact Field.forall_mem_of_list (fun _ _ => GroundTruth.hasSurrogate_of_check) hvalue

/-- A built-in test case. -/
theorem TestCase.isPlain_of_mem_samples : ∀ case ∈ samples, case.IsPlain := by
  have hsamples : ∀ case ∈ samples, case.id.hasSurrogate = false ∧
      ∀ truth ∈ case.truths, truth.label.hasSurrogate = false := by decide +kernel
  exact fun case hcase => ⟨(hsamples case hcase).1, (hsamples case hcase).2⟩

/-! ### Entries -/

variable {maxDepth : Nat}

/-- A test case that is found at an entry. -/
theorem CaseEntry.isPlain_of_findings {entry : CaseEntry} {findings : List CaseFinding}
    (h : entry.findings maxDepth = .ok findings) {case : TestCase}
    (hcase : .found case ∈ findings) : case.IsPlain := by
  cases finds_iff.2 h with
  | undecodable => cases List.mem_singleton.1 hcase
  | malformed => cases List.mem_singleton.1 hcase
  | items _ _ hfindings =>
    simp only [CaseFinding.isOf_iff] at hfindings
    rw [forall₂_eq_iff] at hfindings
    rw [hfindings] at hcase
    obtain ⟨⟨label, item⟩, -, hitem⟩ := List.mem_map.1 hcase
    exact TestCase.isPlain_of_check (CaseFinding.findingOf_eq_found_iff.1 hitem).2

theorem isPlain_of_findingsOf {entries : List CaseEntry} {case : TestCase}
    (hcase : .found case ∈ (findingsOf maxDepth entries).1) : case.IsPlain := by
  induction entries with
  | nil => cases hcase
  | cons entry rest ih =>
    rw [findingsOf] at hcase
    cases hentry : entry.findings maxDepth with
    | error failure =>
      rw [hentry] at hcase
      cases hcase
    | ok findings =>
      rw [hentry] at hcase
      rcases List.mem_append.1 hcase with hfirst | hrest
      · exact entry.isPlain_of_findings hentry hfirst
      · exact ih hrest

/-! ### Sources -/

theorem isPlain_of_loadEntries {source : CaseSource} {entries : List CaseEntry}
    {cases : List TestCase} (h : (loadEntries maxDepth source.name entries).outcome = .ok cases) :
    (∀ case ∈ cases, case.IsPlain) ∧
      ∀ event ∈ (loadEntries maxDepth source.name entries).events, event.logLine.IsPlain := by
  obtain ⟨hfindings, hnodup⟩ := findingsOf_eq_of_loadEntries h
  have hsettle : settle source.name (cases.map .found) =
      (.ok cases, .loadingCompleted source.name cases.length) := by
    rw [settle, if_pos (problemsOf_eq_nil_iff.2 ⟨cases, rfl, hnodup⟩),
      CaseFinding.filterMap_case?]
  have hcases : ∀ case ∈ cases, case.IsPlain := by
    intro case hcase
    have hfound : CaseFinding.found case ∈ (findingsOf maxDepth entries).1 := by
      rw [hfindings]
      exact List.mem_map_of_mem hcase
    exact isPlain_of_findingsOf hfound
  rw [loadEntries_eq hfindings]
  refine ⟨hcases, List.forall_mem_append.2 ⟨fun event hevent => ?_, ?_⟩⟩
  · rw [CaseFinding.filterMap_event?, CaseFinding.filterMap_case?] at hevent
    obtain ⟨case, hcase, rfl⟩ := List.mem_map.1 hevent
    exact CaseEvent.isPlain_caseLoaded (hcases case hcase).id case.truths.length
  · rw [hsettle]
    exact List.forall_mem_singleton.2 (CaseEvent.isPlain_loadingCompleted source cases.length)

namespace CaseSourceConfig

variable {files : FileTree} {config : CaseSourceConfig} {cases : List TestCase}

theorem isPlain_of_loadPath {source : CaseSource} {path : Path}
    (h : (loadPath maxDepth source files path).outcome = .ok cases) :
    (∀ case ∈ cases, case.IsPlain) ∧
      ∀ event ∈ (loadPath maxDepth source files path).events, event.logLine.IsPlain := by
  obtain ⟨entries, -, hload⟩ := exists_entries_of_loadPath h
  rw [hload] at h ⊢
  exact isPlain_of_loadEntries h

/-- Test cases that are loaded have no lone surrogates in their ids and labels, and what is logged
on the way has none, if the path of the source has none. -/
theorem isPlain_of_load (h : (config.load files maxDepth).outcome = .ok cases)
    (hpath : ∀ path ∈ config.path, ∀ name ∈ path.names, name.hasSurrogate = false) :
    (∀ case ∈ cases, case.IsPlain) ∧
      ∀ event ∈ (config.load files maxDepth).events, event.logLine.IsPlain := by
  obtain ⟨source, path⟩ := config
  have hfile (hsource : source ≠ .samples)
      (hload : (loadFiles ⟨source, path⟩ files maxDepth).outcome = .ok cases) :
      (∀ case ∈ cases, case.IsPlain) ∧
        ∀ event ∈ (loadFiles ⟨source, path⟩ files maxDepth).events, event.logLine.IsPlain := by
    cases path with
    | none => cases source <;> cases hload
    | some path =>
      rw [loadFiles_eq_loadPath hsource rfl] at hload ⊢
      obtain ⟨hcases, hevents⟩ := isPlain_of_loadPath hload
      refine ⟨hcases, List.forall_mem_cons.2 ⟨CaseEvent.isPlain_loadingStarted ?_, hevents⟩⟩
      rintro _ ⟨⟩
      exact Path.hasSurrogate_text (hpath path rfl)
  cases source with
  | samples =>
    obtain rfl := Except.ok.inj h
    refine ⟨TestCase.isPlain_of_mem_samples, List.forall_mem_cons.2 ⟨?_, ?_⟩⟩
    · exact CaseEvent.isPlain_loadingStarted nofun
    · refine List.forall_mem_append.2 ⟨fun event hevent => ?_, List.forall_mem_singleton.2 ?_⟩
      · obtain ⟨case, hcase, rfl⟩ := List.mem_map.1 hevent
        exact CaseEvent.isPlain_caseLoaded (TestCase.isPlain_of_mem_samples case hcase).id _
      · exact CaseEvent.isPlain_loadingCompleted .samples _
  | jsonl => exact hfile nofun h
  | directory => exact hfile nofun h

end CaseSourceConfig

end TypeBench
