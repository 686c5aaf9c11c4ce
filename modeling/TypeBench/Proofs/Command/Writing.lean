import TypeBench.Proofs.Command.Run
import TypeBench.Proofs.Report.Place

/-!
# Files that a run writes

A run makes the directory of reports and, once the approaches are evaluated, writes one report. It
writes no other file, however it ends. The report stands in the directory that was asked for if
there is no slash in the name of the configuration; a name with a slash can lead it elsewhere.

## Main definitions

* `FileTree.AddsDirectories`: nothing but directories is added.
* `CommandStep.KeepsFiles`: a step that leaves the files as they are.
* `Command.Leaves`: the files that a run may leave.

## Main results

* `FileTree.makeDirectory_cases`: making a directory and those on the way to it.
* `FileTree.exists_of_locate_child`: a child of a path leads into the directory at the path.
* `Command.leaves_run`: what a run leaves.
* `Command.execute_report_inside`: where a run writes its report.
-/

namespace TypeBench

/-! ### Making directories -/

namespace FileTree

variable {files made left : FileTree} {path : Path} {place : FilePlace} {bytes : Bytes}

/-- Nothing but directories is added to files. -/
def AddsDirectories (files made : FileTree) : Prop :=
  ∀ entry ∈ made, entry ∈ files ∨ entry.2 = .directory

theorem AddsDirectories.refl (files : FileTree) : AddsDirectories files files :=
  fun _ h => .inl h

theorem AddsDirectories.trans {more : FileTree} (h : AddsDirectories files made)
    (h' : AddsDirectories made more) : AddsDirectories files more := fun entry hentry =>
  (h' entry hentry).elim (h entry) .inr

/-- Making a directory in one that stands adds it, at a path that the system takes. -/
theorem makeOne_eq_ok (h : files.makeOne path = .ok made) :
    pathFault? path = none ∧ AddsDirectories files made := by
  rw [makeOne] at h
  split at h
  · cases h
  · cases h
  next name hfault hname =>
    refine ⟨hfault, ?_⟩
    cases hfollow : files.follow (.startOf path) path.names.dropLast with
    | error fault =>
      rw [hfollow] at h
      cases h
    | ok place =>
      rw [hfollow] at h
      dsimp only [bind, Except.bind] at h
      split at h
      · cases h
      · cases h
      · split at h
        · cases h
        · split at h
          · cases h
          · cases h
            refine fun entry hentry => (List.mem_append.1 hentry).imp_right fun hnew => ?_
            rw [List.mem_singleton.1 hnew]

/-- What a path leads to is at a path that the system takes. -/
theorem pathFault?_of_lookUp {entry : FileEntry} (h : files.lookUp path = .ok (place, entry)) :
    pathFault? path = none := by
  cases hfault : pathFault? path with
  | none => rfl
  | some fault =>
    rw [lookUp, locate, hfault] at h
    cases h

/-- A fault is settled without changing the files, and only where a directory stands already. -/
theorem settleFault_cases (files : FileTree) (path : Path) (fault : FileFault) :
    (files.settleFault path fault).1 = files ∧
      ((files.settleFault path fault).2 = .ok () → pathFault? path = none) := by
  rw [settleFault]
  split
  · exact ⟨rfl, fun h => by cases h⟩
  · rw [isDirectory]
    rcases hlook : files.lookUp path with fault | ⟨place, bytes | _⟩
    · cases fault <;> exact ⟨rfl, fun h => by cases h⟩
    · exact ⟨rfl, fun h => by cases h⟩
    · exact ⟨rfl, fun _ => pathFault?_of_lookUp hlook⟩

theorem makeLast_cases (files : FileTree) (path : Path) :
    AddsDirectories files (files.makeLast path).1 ∧
      ((files.makeLast path).2 = .ok () → pathFault? path = none) := by
  rw [makeLast]
  split
  next made hmade =>
    obtain ⟨hfault, hadds⟩ := makeOne_eq_ok hmade
    exact ⟨hadds, fun _ => hfault⟩
  next => exact ⟨.refl files, fun h => by cases h⟩
  next fault _ _ =>
    obtain ⟨hfiles, hok⟩ := settleFault_cases files path fault
    refine ⟨?_, hok⟩
    rw [hfiles]
    exact .refl files

/-- Making a directory and those on the way to it adds nothing else. If it succeeds, the system
takes its path. -/
theorem makeDirectory_cases (files : FileTree) (path : Path) :
    AddsDirectories files (files.makeDirectory path).1 ∧
      ((files.makeDirectory path).2 = .ok () → pathFault? path = none) := by
  fun_induction makeDirectory files path with
  | case1 path made hmade =>
    obtain ⟨hfault, hadds⟩ := makeOne_eq_ok hmade
    exact ⟨hadds, fun _ => hfault⟩
  | case2 => exact ⟨.refl _, nofun⟩
  | case3 path _ _ made hmade ih =>
    obtain ⟨hadds, hok⟩ := makeLast_cases made path
    rw [hmade] at ih
    exact ⟨ih.1.trans hadds, hok⟩
  | case4 path _ _ hfailed ih =>
    exact ⟨ih.1, fun hok => (hfailed _ (Prod.ext rfl hok)).elim⟩
  | case5 path fault _ _ =>
    obtain ⟨hfiles, hok⟩ := settleFault_cases files path fault
    refine ⟨?_, hok⟩
    rw [hfiles]
    exact .refl files

/-! ### Writing a file -/

/-- What is written replaces what stands at the place that the path leads to. -/
theorem exists_of_write (h : files.write path bytes = .ok left) :
    ∃ place, files.locate path = .ok place ∧ left = files.put place (.file bytes) := by
  rw [write] at h
  cases hlocate : files.locate path with
  | error fault =>
    rw [hlocate] at h
    cases h
  | ok place =>
    rw [hlocate] at h
    dsimp only [bind, Except.bind] at h
    split at h
    · cases h
    · cases h
    · cases h
      exact ⟨place, rfl, rfl⟩

/-- The last of some names is looked up in the directory that the names before it lead to. -/
theorem exists_of_follow_concat {there : FilePlace} {names : List Text} {name : Text}
    (h : files.follow place (names ++ [name]) = .ok there) :
    ∃ parent, files.follow place names = .ok parent ∧ files.at? parent = some .directory ∧
      there = parent.inside name := by
  induction names generalizing place with
  | nil =>
    rw [List.nil_append, follow] at h
    split at h
    · cases h
    · cases h
    next hplace =>
      split at h
      · cases h
      · cases h
        exact ⟨place, rfl, hplace, rfl⟩
  | cons first names ih =>
    rw [List.cons_append, follow] at h
    rw [follow]
    split at h
    · cases h
    · cases h
    next hplace =>
      split at h
      · cases h
      next hshort =>
        rw [if_neg hshort]
        exact ih h

/-- A child of a path leads into the directory that the path leads to. -/
theorem exists_of_locate_child {name : Text} (hfault : pathFault? path = none)
    (h : files.locate ⟨path.slashes, path.names ++ [name]⟩ = .ok place) :
    ∃ parent, files.lookUp path = .ok (parent, .directory) ∧ place = parent.inside name := by
  rw [locate] at h
  split at h
  · cases h
  · obtain ⟨parent, hfollow, hparent, rfl⟩ := exists_of_follow_concat h
    have hlocate : files.locate path = .ok parent := by
      rw [locate, hfault]
      exact hfollow
    refine ⟨parent, ?_, rfl⟩
    rw [lookUp, hlocate]
    dsimp only [bind, Except.bind]
    rw [hparent]
    rfl

end FileTree

/-! ### Steps that leave the files as they are -/

namespace CommandStep

variable {α β : Type} {t : Transcript}

/-- The files after a step, whether or not it ends the command. -/
def filesAfter : EStateM.Result Ending Transcript α → FileTree
  | .ok _ t => t.files
  | .error _ t => t.files

/-- A step that leaves the files as they are. -/
def KeepsFiles (x : CommandStep α) : Prop :=
  ∀ t, filesAfter (x t) = t.files

/-- The files after two steps are those after the first one if it ends the command. -/
theorem filesAfter_bind {P : FileTree → Prop} {x : CommandStep α} {f : α → CommandStep β}
    (hstop : ∀ ending t', x t = .error ending t' → P t'.files)
    (hgo : ∀ a t', x t = .ok a t' → P (filesAfter (f a t'))) : P (filesAfter ((x >>= f) t)) := by
  cases hx : x t with
  | ok a t' =>
    rw [bind_of_ok hx]
    exact hgo a t' hx
  | error ending t' =>
    rw [bind_of_error hx]
    exact hstop ending t' hx

theorem exists_of_bind_eq_ok {x : CommandStep α} {f : α → CommandStep β} {b : β}
    {t' : Transcript} (h : (x >>= f) t = .ok b t') :
    ∃ a t'', x t = .ok a t'' ∧ f a t'' = .ok b t' := by
  cases hx : x t with
  | ok a t'' =>
    rw [bind_of_ok hx] at h
    exact ⟨a, t'', rfl, h⟩
  | error ending t'' =>
    rw [bind_of_error hx] at h
    cases h

theorem KeepsFiles.files_of_ok {x : CommandStep α} (h : KeepsFiles x) {a : α} {t' : Transcript}
    (hx : x t = .ok a t') : t'.files = t.files := by
  have hkeeps := h t
  rwa [hx] at hkeeps

theorem KeepsFiles.files_of_error {x : CommandStep α} (h : KeepsFiles x) {ending : Ending}
    {t' : Transcript} (hx : x t = .error ending t') : t'.files = t.files := by
  have hkeeps := h t
  rwa [hx] at hkeeps

theorem KeepsFiles.bind {x : CommandStep α} {f : α → CommandStep β} (hx : KeepsFiles x)
    (hf : ∀ a, KeepsFiles (f a)) : KeepsFiles (x >>= f) := fun t =>
  filesAfter_bind (P := (· = t.files)) (fun _ _ h => hx.files_of_error h)
    fun a t' h => (hf a t').trans (hx.files_of_ok h)

theorem keepsFiles_pure (a : α) : KeepsFiles (pure a : CommandStep α) := fun _ => rfl

theorem keepsFiles_throw (ending : Ending) : KeepsFiles (throw ending : CommandStep α) :=
  fun _ => rfl

theorem keepsFiles_files : KeepsFiles files := fun _ => rfl

theorem keepsFiles_logFormat : KeepsFiles logFormat := fun _ => rfl

theorem keepsFiles_orFail (outcome : Except Failure α) : KeepsFiles (orFail outcome) := by
  cases outcome with
  | ok a => exact keepsFiles_pure a
  | error failure => exact keepsFiles_throw _

theorem keepsFiles_print (hasStyles : Bool) (line : Text) : KeepsFiles (print hasStyles line) := by
  intro t
  rw [print]
  split
  next t' hprint => exact Transcript.files_of_print hprint
  next => rfl

theorem keepsFiles_printAll (hasStyles : Bool) (lines : List Text) :
    KeepsFiles (printAll hasStyles lines) := by
  induction lines with
  | nil => exact keepsFiles_pure ()
  | cons line rest ih => exact (keepsFiles_print hasStyles line).bind fun _ => ih

theorem keepsFiles_log (now : Timestamp) (line : LogLine) : KeepsFiles (log now line) := by
  intro t
  rw [log]
  split <;> rfl

theorem keepsFiles_logAll (now : Timestamp) (lines : List LogLine) :
    KeepsFiles (logAll now lines) := by
  induction lines with
  | nil => exact keepsFiles_pure ()
  | cons line rest ih => exact (keepsFiles_log now line).bind fun _ => ih

/-- The last words of a command leave its files as they are. -/
theorem files_conclude (hasStyles : Bool) (interrupted : Text)
    (result : EStateM.Result Ending Transcript Unit) :
    (conclude hasStyles interrupted result).2.files = filesAfter result := by
  cases result with
  | ok _ t => rfl
  | error ending t => exact (conclude_error hasStyles interrupted ending t).2.1

end CommandStep

/-! ### Parts of a run -/

namespace Command

open CommandStep

variable (w : Surroundings)

theorem keepsFiles_chooseLogFormat (name : Text) : KeepsFiles (chooseLogFormat w name) := by
  rw [chooseLogFormat]
  split
  · exact fun _ => rfl
  · exact (keepsFiles_print _ _).bind fun _ => keepsFiles_throw _

theorem keepsFiles_loadConfig (path : Path) : KeepsFiles (loadConfig w path) := by
  refine keepsFiles_files.bind fun files => (keepsFiles_logAll _ _).bind fun _ => ?_
  split
  · exact keepsFiles_pure _
  · exact (keepsFiles_print _ _).bind fun _ => keepsFiles_throw _
  · exact keepsFiles_throw _

theorem keepsFiles_loadCases (source : CaseSourceConfig) : KeepsFiles (loadCases w source) :=
  keepsFiles_files.bind fun _ => (keepsFiles_logAll _ _).bind fun _ => keepsFiles_orFail _

theorem keepsFiles_registerAll (entries : Named ApproachConfig) (entropy : Twister)
    (bench : Bench ParsingBaseline) : KeepsFiles (registerAll w entries entropy bench) := by
  induction entries generalizing entropy bench with
  | nil => exact keepsFiles_pure bench
  | cons entry rest ih =>
    rw [registerAll]
    refine (keepsFiles_orFail _).bind fun _ => ?_
    refine KeepsFiles.bind ?_ fun _ => ih _ _
    exact (keepsFiles_log _ _).bind fun _ => keepsFiles_pure _

theorem keepsFiles_evaluateAll (bench : Bench ParsingBaseline) (cases : List TestCase)
    (optionsOf : Text → Options) : KeepsFiles (evaluateAll w bench cases optionsOf) := by
  refine keepsFiles_logFormat.bind fun _ => (keepsFiles_logAll _ _).bind fun _ =>
    (keepsFiles_orFail _).bind fun _ => ?_
  split
  · exact keepsFiles_pure _
  · exact keepsFiles_throw _

theorem keepsFiles_requireResult (results : Bench.Results Binary64) :
    KeepsFiles (requireResult results) := by
  rw [requireResult]
  split
  · exact keepsFiles_throw _
  · exact keepsFiles_pure _

/-! ### Runs -/

/-- The files that a run of a configuration may leave: those that there were, those with the
directory of reports made as far as it can be, and those with the report written there. -/
inductive Leaves (w : Surroundings) (path output : Path) : FileTree → Prop
  | untouched : Leaves w path output w.files
  | made {config : EvalConfig}
      (hload : (EvalConfig.load w.files w.yaml w.environment path).outcome = .ok config) :
      Leaves w path output (w.files.makeDirectory output).1
  | written {config : EvalConfig} {made left : FileTree} {bytes : Bytes}
      (hload : (EvalConfig.load w.files w.yaml w.environment path).outcome = .ok config)
      (hmake : w.files.makeDirectory output = (made, .ok ()))
      (hwrite : made.write (EvaluationReport.path output config.name w.now) bytes = .ok left) :
      Leaves w path output left

variable {w} {path output : Path} {config : EvalConfig} {t t' : Transcript}

/-- A configuration that a command goes on with was loaded. -/
theorem outcome_of_loadConfig_eq_ok (h : loadConfig w path t = .ok config t') :
    (EvalConfig.load t.files w.yaml w.environment path).outcome = .ok config := by
  cases houtcome : (EvalConfig.load t.files w.yaml w.environment path).outcome with
  | error failure =>
    obtain ⟨ending, t'', herror, -⟩ := loadConfig_of_error (w := w) houtcome
    rw [herror] at h
    cases h
  | ok loaded =>
    rw [loadConfig, files_bind] at h
    rw [houtcome] at h
    obtain ⟨_, t'', -, hreturn⟩ := exists_of_bind_eq_ok h
    cases hreturn
    rfl

theorem leaves_of_makeDirectory {made : FileTree} {outcome : Except (Path × FileFault) Unit}
    (hload : (EvalConfig.load w.files w.yaml w.environment path).outcome = .ok config)
    (hmake : w.files.makeDirectory output = (made, outcome)) : Leaves w path output made := by
  have hmade : Leaves w path output (w.files.makeDirectory output).1 := .made hload
  rwa [hmake] at hmade

theorem writeFile_of_error {text : Text} {fault : FileFault}
    (h : t.files.write path (text.flatMap Utf8.encodePoint) = .error fault) :
    writeFile path text t = .error (.halted (.failed (.file path fault))) t := by
  rw [writeFile, files_bind, h]
  rfl

/-- Once the directory of reports is made, the report is the only file that is written. -/
theorem leaves_concludeResults {bench : Bench ParsingBaseline} {results : Bench.Results Binary64}
    (hload : (EvalConfig.load w.files w.yaml w.environment path).outcome = .ok config)
    (hmake : w.files.makeDirectory output = (t.files, .ok ())) :
    Leaves w path output (filesAfter (concludeResults w output config bench results t)) := by
  have hprint : KeepsFiles (do
      printResults w bench results
      printAll w.hasStyles (Console.reportLocation (EvaluationReport.path output config.name w.now))
      requireResult results) := by
    refine KeepsFiles.bind ?_ fun _ => (keepsFiles_printAll _ _).bind fun _ =>
      keepsFiles_requireResult results
    exact (keepsFiles_printAll _ _).bind fun _ => keepsFiles_printAll _ _
  cases hwrite : t.files.write (EvaluationReport.path output config.name w.now)
      ((reportOf w config results).text.flatMap Utf8.encodePoint) with
  | error fault =>
    rw [concludeResults, bind_of_error (writeFile_of_error hwrite)]
    exact leaves_of_makeDirectory hload hmake
  | ok left =>
    rw [concludeResults, bind_of_ok (writeFile_of_ok hwrite), hprint]
    exact .written hload hmake hwrite

/-- What is left of a run whose configuration is loaded and whose directory is made. -/
theorem leaves_evaluateLoaded
    (hload : (EvalConfig.load w.files w.yaml w.environment path).outcome = .ok config)
    (hmake : w.files.makeDirectory output = (t.files, .ok ())) :
    Leaves w path output (filesAfter (evaluateLoaded w output config t)) := by
  have hmade : Leaves w path output t.files := leaves_of_makeDirectory hload hmake
  have hcases := keepsFiles_loadCases w config.cases
  refine filesAfter_bind (fun _ _ h => hcases.files_of_error h ▸ hmade) fun cases t₁ h₁ => ?_
  have hregister := keepsFiles_registerAll w config.approaches w.entropy
    (Bench.empty config.scoring.policy)
  rw [← hcases.files_of_ok h₁] at hmade hmake
  refine filesAfter_bind (fun _ _ h => hregister.files_of_error h ▸ hmade) fun bench t₂ h₂ => ?_
  have hevaluate := keepsFiles_evaluateAll w bench cases (optionsIn config)
  rw [← hregister.files_of_ok h₂] at hmade hmake
  refine filesAfter_bind (fun _ _ h => hevaluate.files_of_error h ▸ hmade) fun results t₃ h₃ => ?_
  rw [← hevaluate.files_of_ok h₃] at hmake
  exact leaves_concludeResults hload hmake

/-- What a run of a configuration leaves, however it ends. -/
theorem leaves_run (w : Surroundings) (path output : Path) (formatName : Text) :
    Leaves w path output ((run path output formatName).execute w).2.files := by
  rw [execute, files_conclude]
  have hchoose := keepsFiles_chooseLogFormat w formatName
  refine filesAfter_bind (fun _ _ h => ?_) fun _ t₁ h₁ => ?_
  · rw [hchoose.files_of_error h]
    exact .untouched
  have hfiles₁ : t₁.files = w.files := hchoose.files_of_ok h₁
  have hconfig := keepsFiles_loadConfig w path
  refine filesAfter_bind (fun _ _ h => ?_) fun config t₂ h₂ => ?_
  · rw [hconfig.files_of_error h, hfiles₁]
    exact .untouched
  have hload := outcome_of_loadConfig_eq_ok h₂
  have hfiles₂ : t₂.files = w.files := (hconfig.files_of_ok h₂).trans hfiles₁
  rw [hfiles₁] at hload
  rcases hmake : w.files.makeDirectory output with ⟨made, ⟨at_, fault⟩ | _⟩
  · have hmade : makeDirectory output t₂ =
        .error (.halted (.failed (.file at_ fault))) { t₂ with files := made } := by
      rw [makeDirectory, files_bind, hfiles₂, hmake]
      rfl
    rw [bind_of_error hmade]
    exact leaves_of_makeDirectory hload hmake
  · have hmade : makeDirectory output t₂ = .ok () { t₂ with files := made } :=
      makeDirectory_of_ok (hfiles₂ ▸ hmake)
    rw [bind_of_ok hmade]
    exact leaves_evaluateLoaded (t := { t₂ with files := made }) hload hmake

/-! ### The place of the report -/

/-- A file that is left of a run and was not there is the report, at the place of its path in the
files with the directory of reports. -/
theorem Leaves.exists_of_new {left : FileTree} (h : Leaves w path output left)
    {place : FilePlace} {bytes : Bytes} (hmem : (place, .file bytes) ∈ left)
    (hnew : (place, .file bytes) ∉ w.files) :
    ∃ config made, (EvalConfig.load w.files w.yaml w.environment path).outcome = .ok config ∧
      w.files.makeDirectory output = (made, .ok ()) ∧
      made.locate (EvaluationReport.path output config.name w.now) = .ok place := by
  have hmade : (place, .file bytes) ∉ (w.files.makeDirectory output).1 := fun hmem => by
    obtain hold | hdirectory := (w.files.makeDirectory_cases output).1 _ hmem
    · exact hnew hold
    · cases hdirectory
  cases h with
  | untouched => exact absurd hmem hnew
  | made hload => exact absurd hmem hmade
  | @written config made left written hload hmake hwrite =>
    rw [hmake] at hmade
    obtain ⟨there, hlocate, hput⟩ := FileTree.exists_of_write hwrite
    rw [hput, FileTree.put, List.mem_append] at hmem
    obtain hkept | hreport := hmem
    · exact absurd (List.mem_filter.1 hkept).1 hmade
    · cases List.mem_singleton.1 hreport
      exact ⟨config, made, hload, hmake, hlocate⟩

/-- **The place of the report.** The path of a report is a child of the directory of reports, and
its file has the name of the configuration and the eight digits of the day, if and only if there is
no slash in the name and the year is 1000 or later. However a run ends, a file that it leaves and
that was not there is the report on a configuration that was loaded. If there is no slash in the
name of this configuration, the file stands in the directory that the path for reports leads to. -/
theorem execute_report_inside (w : Surroundings) (path output : Path) (formatName : Text) :
    (∀ (name : Text) (now : Timestamp),
      ((EvaluationReport.path output name now).parent = output ∧
          (EvaluationReport.path output name now).name =
            name ++ "_" ++ now.date.eightDigits ++ ".json") ↔
        ('/' : CodePoint) ∉ name ∧ 1000 ≤ now.date.year) ∧
    ∀ (place : FilePlace) (bytes : Bytes),
      (place, .file bytes) ∈ ((run path output formatName).execute w).2.files →
      (place, .file bytes) ∉ w.files →
      ∃ config made, (EvalConfig.load w.files w.yaml w.environment path).outcome = .ok config ∧
        w.files.makeDirectory output = (made, .ok ()) ∧
        (('/' : CodePoint) ∉ config.name →
          ∃ parent, made.lookUp output = .ok (parent, .directory) ∧
            place = ⟨parent.anchor,
              parent.names ++ [config.name ++ "_" ++ w.now.date.compact ++ ".json"]⟩) := by
  refine ⟨EvaluationReport.isChild_path_iff output, fun place bytes hmem hnew => ?_⟩
  obtain ⟨config, made, hload, hmake, hlocate⟩ :=
    (leaves_run w path output formatName).exists_of_new hmem hnew
  refine ⟨config, made, hload, hmake, fun hslash => ?_⟩
  have hfault : FileTree.pathFault? output = none :=
    (w.files.makeDirectory_cases output).2 (congrArg Prod.snd hmake)
  rw [EvaluationReport.path_of_notMem output hslash] at hlocate
  obtain ⟨parent, hparent, rfl⟩ := FileTree.exists_of_locate_child hfault hlocate
  refine ⟨parent, hparent, ?_⟩
  rw [FilePlace.inside, if_pos (EvaluationReport.fileName_ne (by decide) config.name w.now)]
  rfl

/-- A run of a sample writes its report where it can be written. -/
theorem exists_report_sample {value : Value} (place : FilePlace)
    (hload : (EvalConfig.load EvalConfig.sampleFiles (fun _ => .value value) []
      EvalConfig.samplePath).outcome = .ok config)
    (hcases : config.cases = .default)
    (happroaches : config.approaches = EvalConfig.seededConfig.approaches)
    (hwrite : ∀ bytes, sampleMade.write
      (EvaluationReport.path sampleOutput config.name sampleMoment) bytes =
        .ok (sampleMade ++ [(place, .file bytes)])) :
    ∃ bytes, (place, .file bytes) ∈
      ((run EvalConfig.samplePath sampleOutput "json").execute
        (sampleSurroundings value)).2.files := by
  have hkind : ∀ entry ∈ config.approaches, entry.2.kind = ApproachConfig.randomKind := by
    rw [happroaches]
    exact List.forall_mem_singleton.2 rfl
  have hloaded : (config.cases.load sampleMade).outcome = .ok TestCase.samples := by
    rw [hcases]
    rfl
  have hformat : LogFormat.ofName? "json" = some .json := rfl
  obtain ⟨_, results, _, -, -, hreports⟩ := execute_of_random (w := sampleSurroundings value)
    hformat (clock_sample value) nofun hload
    (isPlain_seeded "baseline" rfl hcases happroaches) makeDirectory_sample hloaded hkind nofun
    (List.forall_mem_singleton.2 rfl) fun bytes => ⟨_, hwrite bytes⟩
  have hleft := Except.ok.inj ((hwrite _).symm.trans hreports.written)
  exact ⟨_, hleft ▸ List.mem_append_right sampleMade List.mem_cons_self⟩

theorem notMem_sampleFiles {place : FilePlace} (h : place ≠ .ofNames ["eval.yaml"])
    (entry : FileEntry) : (place, entry) ∉ EvalConfig.sampleFiles := fun hmem =>
  h (congrArg Prod.fst (List.mem_singleton.1 hmem))

/-- The place of the report on a sample. -/
def samplePlace : FilePlace := .ofNames ["results", "demo_20240102.json"]

/-- The report on a sample stands in the directory of reports. -/
theorem execute_report_inside_demo : ∃ bytes,
    (samplePlace, .file bytes) ∈ ((run EvalConfig.samplePath sampleOutput "json").execute
      (sampleSurroundings EvalConfig.seededValue)).2.files ∧
    (samplePlace, .file bytes) ∉ EvalConfig.sampleFiles ∧
    ∃ parent, sampleMade.lookUp sampleOutput = .ok (parent, .directory) ∧
      samplePlace.parent = parent := by
  obtain ⟨bytes, hmem⟩ := exists_report_sample samplePlace
    EvalConfig.outcome_load_seeded rfl rfl fun _ => rfl
  have hplace : samplePlace ≠ .ofNames ["eval.yaml"] := by decide
  have hnew := notMem_sampleFiles hplace (.file bytes)
  obtain ⟨config, made, hload, hmake, hinside⟩ := (execute_report_inside _ _ _ _).2 _ _ hmem hnew
  obtain rfl := Except.ok.inj (EvalConfig.outcome_load_seeded.symm.trans hload)
  obtain rfl := congrArg Prod.fst (makeDirectory_sample.symm.trans hmake)
  obtain ⟨parent, hparent, hchild⟩ := hinside (by decide)
  refine ⟨bytes, hmem, hnew, parent, hparent, ?_⟩
  rw [hchild, FilePlace.parent, List.dropLast_concat]

/-- A configuration with a slash in its name. -/
def outerValue : Value :=
  .ofFields [("name", "../demo"), ("version", "1"),
    ("approaches", .ofFields [("baseline",
      .ofFields [("type", "random"), ("options", .ofFields [("seed", .int 7)])])])]

/-- The configuration that it writes. -/
def outerConfig : EvalConfig := { EvalConfig.seededConfig with name := "../demo" }

theorem outcome_load_outer :
    (EvalConfig.load EvalConfig.sampleFiles (fun _ => .value outerValue) []
      EvalConfig.samplePath).outcome = .ok outerConfig := by
  have hplain : ∀ t ∈ outerValue.texts, ('$' : CodePoint) ∉ t := by decide
  exact EvalConfig.outcome_load_of_plain rfl hplain rfl

/-- A place next to the directory of reports. -/
def outerPlace : FilePlace := .ofNames ["demo_20240102.json"]

/-- This configuration is loaded, the path of its report is no child of the directory of reports,
and the report is written next to that directory. -/
theorem not_inside_outer :
    (EvalConfig.load EvalConfig.sampleFiles (fun _ => .value outerValue) []
        EvalConfig.samplePath).outcome = .ok outerConfig ∧
    ¬((EvaluationReport.path sampleOutput outerConfig.name sampleMoment).parent = sampleOutput ∧
      (EvaluationReport.path sampleOutput outerConfig.name sampleMoment).name =
        outerConfig.name ++ "_" ++ sampleMoment.date.eightDigits ++ ".json") ∧
    EvalConfig.sampleFiles.makeDirectory sampleOutput = (sampleMade, .ok ()) ∧
    sampleMade.lookUp sampleOutput = .ok (.ofNames ["results"], .directory) ∧
    outerPlace.isBelow (.ofNames ["results"]) = false ∧
    ∃ bytes, (outerPlace, .file bytes) ∉ EvalConfig.sampleFiles ∧
      (outerPlace, .file bytes) ∈ ((run EvalConfig.samplePath sampleOutput "json").execute
        (sampleSurroundings outerValue)).2.files := by
  obtain ⟨bytes, hmem⟩ := exists_report_sample outerPlace outcome_load_outer rfl rfl
    fun _ => rfl
  refine ⟨outcome_load_outer, ?_, makeDirectory_sample, rfl, rfl, bytes,
    notMem_sampleFiles (by decide) (.file bytes), hmem⟩
  rw [EvaluationReport.isChild_path_iff]
  exact fun h => h.1 (by decide)

end Command

end TypeBench
