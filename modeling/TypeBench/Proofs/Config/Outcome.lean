import TypeBench.Proofs.Config.Missing

/-!
# Outcomes of loading a configuration

Loading documents what it may end with: a configuration, or an error of the bench about a file that
cannot be read as YAML, about missing variables or about a value that is no configuration. A file
that is not there and YAML that is malformed are explained in this way. All other failures of the
reading are passed on as they are: those of a place that is no file, of bytes that are no text, and
those that the YAML reader has no complaint for.

## Main definitions

* `EvalConfig.IsOfContent`, `EvalConfig.IsDocumented`: the documented outcomes.
* `EvalConfig.IsUnreadable`: files that are explained to be unreadable, with the reason.
* `EvalConfig.PassesOn`: failures that are passed on.

## Main results

* `EvalConfig.read_cases`: a file is read, explained to be unreadable, or its failure is passed on.
* `EvalConfig.isOfContent_ofValue`: whatever is read, the outcome is a documented one.
* `EvalConfig.load_documented`: which outcomes are documented, and what the others are.
* `EvalConfig.not_isDocumented_load`: a directory and bytes that are no text are not explained.
-/

namespace TypeBench.EvalConfig

/-- The documented outcomes for the content of a file: a configuration, or an error about missing
variables or about a value that is no configuration, by its form as a whole or by its fields. -/
inductive IsOfContent : Except Failure EvalConfig → Prop
  | loaded (config : EvalConfig) : IsOfContent (.ok config)
  | missing (names : List Text) : IsOfContent (.error (.bench (.missingVariables names)))
  | invalid (reason : Text) : IsOfContent (.error (.bench (.invalidConfig reason)))
  | violated (report : Report) : IsOfContent (.error (.bench (.violatedConfig report)))

/-- The documented outcomes of loading the configuration at a path: those for the content of the
file, and the error about a file that cannot be read. -/
inductive IsDocumented (path : Path) : Except Failure EvalConfig → Prop
  | content {outcome : Except Failure EvalConfig} (h : IsOfContent outcome) :
      IsDocumented path outcome
  | unreadable (reason : Text) :
      IsDocumented path (.error (.bench (.unreadableConfig path reason)))

section

variable (files : FileTree) (yaml : YamlReader) (path : Path)

/-- The file at a path is explained to be unreadable, with a reason: it is not there, or it is
malformed YAML. -/
inductive IsUnreadable : Text → Prop
  | missing (h : files.lookUp path = .error .missing) : IsUnreadable BenchError.fileNotFound
  | malformed {place : FilePlace} {bytes : Bytes} {complaint : Text}
      (h : files.lookUp path = .ok (place, .file bytes)) (hne : bytes ≠ [])
      (hyaml : yaml place = .malformed complaint) :
      IsUnreadable ("invalid YAML (" ++ complaint ++ ")")

/-- Reading the file at a path ends with a failure that is passed on as it is. -/
inductive PassesOn : Failure → Prop
  | unopened {fault : FileFault} (h : files.lookUp path = .error fault)
      (hfault : fault ≠ .missing) : PassesOn (.file path fault)
  | directory {place : FilePlace} (h : files.lookUp path = .ok (place, .directory)) :
      PassesOn (.file path .isDirectory)
  | undecodable {place : FilePlace} {bytes : Bytes}
      (h : files.lookUp path = .ok (place, .file bytes)) (hne : bytes ≠ [])
      (hyaml : yaml place = .undecodable) : PassesOn (decodingFailure bytes)
  | failed {place : FilePlace} {bytes : Bytes} {message : Text}
      (h : files.lookUp path = .ok (place, .file bytes)) (hne : bytes ≠ [])
      (hyaml : yaml place = .failed message) : PassesOn (.raised message)

end

variable {files : FileTree} {yaml : YamlReader} {env : Environment} {path : Path}
  {failure : Failure} {reason : Text}

/-! ### Reading -/

theorem fileFailure_of_ne {fault : FileFault} (h : fault ≠ .missing) :
    fileFailure path fault = .file path fault := by
  cases fault with
  | missing => exact absurd rfl h
  | _ => rfl

theorem read_of_error {fault : FileFault} (h : files.lookUp path = .error fault) :
    read files yaml path = .error (fileFailure path fault) := by
  rw [read, h]

theorem read_of_directory {place : FilePlace} (h : files.lookUp path = .ok (place, .directory)) :
    read files yaml path = .error (.file path .isDirectory) := by
  rw [read, h]

/-- What is made of a file with content. -/
theorem read_of_file {place : FilePlace} {bytes : Bytes}
    (h : files.lookUp path = .ok (place, .file bytes)) (hne : bytes ≠ []) :
    read files yaml path =
      match yaml place with
      | .value value => .ok value
      | .malformed complaint =>
        .error (.bench (.unreadableConfig path ("invalid YAML (" ++ complaint ++ ")")))
      | .undecodable => .error (decodingFailure bytes)
      | .failed message => .error (.raised message) := by
  obtain ⟨b, rest, rfl⟩ := List.exists_cons_of_ne_nil hne
  cases hyaml : yaml place <;> simp only [read, h, hyaml]

theorem IsUnreadable.read_eq (h : IsUnreadable files yaml path reason) :
    read files yaml path = .error (.bench (.unreadableConfig path reason)) := by
  cases h with
  | missing hlook => exact read_of_error hlook
  | malformed hlook hne hyaml => rw [read_of_file hlook hne, hyaml]

theorem PassesOn.read_eq (h : PassesOn files yaml path failure) :
    read files yaml path = .error failure := by
  cases h with
  | unopened hlook hfault => rw [read_of_error hlook, fileFailure_of_ne hfault]
  | directory hlook => exact read_of_directory hlook
  | undecodable hlook hne hyaml => rw [read_of_file hlook hne, hyaml]
  | failed hlook hne hyaml => rw [read_of_file hlook hne, hyaml]

/-- No failure that is passed on is one that the bench expects. -/
theorem PassesOn.isExpected_eq (h : PassesOn files yaml path failure) :
    failure.isExpected = false := by
  cases h with
  | undecodable =>
    rw [decodingFailure]
    split <;> rfl
  | _ => rfl

/-- A file is read, it is explained to be unreadable, or its failure is passed on. -/
theorem read_cases (files : FileTree) (yaml : YamlReader) (path : Path) :
    (∃ value, read files yaml path = .ok value) ∨
      (∃ reason, IsUnreadable files yaml path reason) ∨
      ∃ failure, PassesOn files yaml path failure := by
  cases hlook : files.lookUp path with
  | error fault =>
    by_cases hfault : fault = .missing
    · subst hfault
      exact .inr (.inl ⟨_, .missing hlook⟩)
    · exact .inr (.inr ⟨_, .unopened hlook hfault⟩)
  | ok found =>
    obtain ⟨place, bytes | _⟩ := found
    · by_cases hne : bytes = []
      · subst hne
        exact .inl ⟨.null, by rw [read, hlook]⟩
      · cases hyaml : yaml place with
        | value value => exact .inl ⟨value, by rw [read_of_file hlook hne, hyaml]⟩
        | malformed complaint => exact .inr (.inl ⟨_, .malformed hlook hne hyaml⟩)
        | undecodable => exact .inr (.inr ⟨_, .undecodable hlook hne hyaml⟩)
        | failed message => exact .inr (.inr ⟨_, .failed hlook hne hyaml⟩)
    · exact .inr (.inr ⟨_, .directory hlook⟩)

/-! ### Outcomes -/

/-- Whatever is read, the outcome is a documented one. -/
theorem isOfContent_ofValue (env : Environment) (value : Value) :
    IsOfContent (ofValue env value) := by
  cases value with
  | map entries =>
    by_cases hmissing : (Value.map entries).missingVariables env = []
    · obtain ⟨value, -, hvalue⟩ := exists_ofValue_eq hmissing
      rw [hvalue, ofMapping]
      cases (check value).report recordName with
      | ok config => exact .loaded config
      | error report => exact .violated report
    · rw [ofValue_of_missing hmissing]
      exact .missing _
  | _ => exact .invalid _

theorem not_isDocumented_of_not_isExpected (h : failure.isExpected = false) :
    ¬IsDocumented path (.error failure) := by
  rintro ((_ | _ | _ | _) | _) <;> cases h

theorem load_of_read_error (h : read files yaml path = .error failure) :
    load files yaml env path = ⟨.error failure, []⟩ := by
  rw [load, h]
  rfl

/-- **Documented outcomes.** Loading ends with a configuration or with a documented error if and
only if reading the file ends with no failure that is passed on. Such a failure is the outcome as it
is, and no event tells of it. The file is said to be unreadable exactly if it is not there or
malformed, which the reason tells. -/
theorem load_documented (files : FileTree) (yaml : YamlReader) (env : Environment) (path : Path) :
    (IsDocumented path (load files yaml env path).outcome ↔
      ∀ failure, ¬PassesOn files yaml path failure) ∧
    (∀ failure, PassesOn files yaml path failure →
      load files yaml env path = ⟨.error failure, []⟩) ∧
    ∀ reason, (load files yaml env path).outcome = .error (.bench (.unreadableConfig path reason)) ↔
      IsUnreadable files yaml path reason := by
  have hpasses (failure : Failure) (h : PassesOn files yaml path failure) :
      load files yaml env path = ⟨.error failure, []⟩ := load_of_read_error h.read_eq
  have hunreadable (reason : Text) (h : IsUnreadable files yaml path reason) :
      (load files yaml env path).outcome = .error (.bench (.unreadableConfig path reason)) := by
    rw [load_of_read_error h.read_eq]
  refine ⟨⟨fun hdocumented failure h => ?_, fun hnone => ?_⟩, hpasses,
    fun reason => ⟨fun houtcome => ?_, hunreadable reason⟩⟩
  · rw [hpasses failure h] at hdocumented
    exact not_isDocumented_of_not_isExpected h.isExpected_eq hdocumented
  · rcases read_cases files yaml path with ⟨value, hvalue⟩ | ⟨reason, h⟩ | ⟨failure, h⟩
    · rw [outcome_load, hvalue]
      exact .content (isOfContent_ofValue env value)
    · rw [hunreadable reason h]
      exact .unreadable reason
    · exact absurd h (hnone failure)
  · rcases read_cases files yaml path with ⟨value, hvalue⟩ | ⟨reason', h⟩ | ⟨failure, h⟩
    · have hcontent : IsOfContent (load files yaml env path).outcome := by
        rw [outcome_load, hvalue]
        exact isOfContent_ofValue env value
      rw [houtcome] at hcontent
      cases hcontent
    · rw [hunreadable reason' h] at houtcome
      cases houtcome
      exact h
    · rw [hpasses failure h] at houtcome
      obtain rfl := Except.error.inj houtcome
      cases h.isExpected_eq

/-- A path in the working directory. -/
def configPath : Path := ⟨0, [Text.ofString "config.yaml"]⟩

/-- A directory in the place of the file. -/
def directoryInstead : FileTree := [(.ofNames configPath.names, .directory)]

theorem passesOn_directoryInstead :
    PassesOn directoryInstead (fun _ => .value .null) configPath (.file configPath .isDirectory) :=
  .directory
    (rfl : directoryInstead.lookUp configPath = .ok (.ofNames configPath.names, .directory))

/-- A file that is not there is explained to be unreadable, and a directory is passed on. -/
theorem load_documented_absent :
    (load [] (fun _ => .value .null) [] configPath).outcome =
      .error (.bench (.unreadableConfig configPath BenchError.fileNotFound)) ∧
    load directoryInstead (fun _ => .value .null) [] configPath =
      ⟨.error (.file configPath .isDirectory), []⟩ := by
  obtain ⟨-, -, hunreadable⟩ := load_documented [] (fun _ => .value .null) [] configPath
  obtain ⟨-, hpasses, -⟩ := load_documented directoryInstead (fun _ => .value .null) [] configPath
  exact ⟨(hunreadable _).2 (.missing rfl), hpasses _ passesOn_directoryInstead⟩

/-- A name whose value is a byte that no text has. -/
def strayBytes : Bytes := [0x6E, 0x61, 0x6D, 0x65, 0x3A, 0x20, 0xFF, 0x0A]

/-- **Failures that are passed on.** A file whose bytes are no text and a directory are opened in
vain, but neither is explained by a documented error. -/
theorem not_isDocumented_load :
    ¬IsDocumented configPath (load [(.ofNames configPath.names, .file strayBytes)]
      (fun _ => .undecodable) [] configPath).outcome ∧
    ¬IsDocumented configPath
      (load directoryInstead (fun _ => .value .null) [] configPath).outcome := by
  constructor
  · have hpasses : PassesOn [(.ofNames configPath.names, .file strayBytes)] (fun _ => .undecodable)
        configPath (decodingFailure strayBytes) :=
      .undecodable (rfl : FileTree.lookUp _ configPath =
        .ok (.ofNames configPath.names, .file strayBytes)) (by decide) rfl
    rw [load_of_read_error hpasses.read_eq]
    exact not_isDocumented_of_not_isExpected hpasses.isExpected_eq
  · rw [load_of_read_error passesOn_directoryInstead.read_eq]
    exact not_isDocumented_of_not_isExpected passesOn_directoryInstead.isExpected_eq

end TypeBench.EvalConfig
