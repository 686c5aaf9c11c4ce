import TypeBench.Proofs.TestCase.Entries
import TypeBench.Proofs.TestCase.Repetition
import TypeBench.Proofs.Text.Decoding

/-!
# What loading accounts for

Every entry of a source is accounted for: its bytes are no text, its text is no document, or each of
its items is a test case or a problem. Loading goes through all of them, so its failure lists every
problem, and it succeeds only with all items as test cases and no id among them twice.

## Main definitions

* `TestCase.IsItem`: the items that are test cases.
* `CaseEntry.Writes`: the document of an entry.
* `CaseFinding.IsOf`, `CaseEntry.Finds`: what stands for an item and for an entry.
* `CaseEntry.AllFind`: what stands for all entries, in order.
* `CaseEntry.AreCases`: the test cases of entries whose items all are.
* `CaseLoading.Settles`: the outcome and the events for findings.

## Main results

* `CaseEntry.finds_iff`: what stands for an entry is what loading finds there.
* `CaseEntry.AllFind.problems_eq_nil_iff`: nothing is wrong if and only if all items are test cases.
* `CaseSourceConfig.loadFiles_account`: loading succeeds with the test cases of all entries, or
  fails with all problems.
-/

namespace TypeBench

/-! ### Items -/

/-- Whether an item is an object that is valid as a test case. -/
def TestCase.IsItem (case : TestCase) (item : Json) : Prop :=
  (∃ members, item = .object members) ∧ TestCase.check item.toValue = .valid case

namespace CaseFinding

/-- What stands for an item under a label: a test case, or the problem with it. -/
inductive IsOf (label : Text) : Json → CaseFinding → Prop
  | found {item : Json} {case : TestCase} (hitem : case.IsItem item) :
      IsOf label item (.found case)
  | notObject {item : Json} (hitem : ∀ members, item ≠ .object members) :
      IsOf label item (.problem (label ++ ": " ++ "expected a JSON object"))
  | invalid {members : List (Text × Json)} {problems : List Problem}
      (hproblems : TestCase.check (Json.object members).toValue = .invalid problems) :
      IsOf label (.object members) (.problem (label ++ ": " ++
        ("invalid test case (" ++ Text.join ", " (problems.map Problem.pathText) ++ ")")))

theorem isOf_findingOf (label : Text) (item : Json) : IsOf label item (findingOf label item) := by
  cases item with
  | object members =>
    cases hcheck : TestCase.check (Json.object members).toValue with
    | valid case =>
      simp only [findingOf, hcheck]
      exact .found ⟨⟨members, rfl⟩, hcheck⟩
    | invalid problems =>
      simp only [findingOf, hcheck]
      exact .invalid hcheck
  | _ => exact .notObject nofun

/-- What stands for an item is found there. -/
theorem isOf_iff {label : Text} {item : Json} {finding : CaseFinding} :
    IsOf label item finding ↔ finding = findingOf label item := by
  constructor
  · intro h
    cases h with
    | found hitem =>
      obtain ⟨⟨members, rfl⟩, hcheck⟩ := hitem
      simp only [findingOf, hcheck]
    | notObject hitem =>
      cases item with
      | object members => exact absurd rfl (hitem members)
      | _ => rfl
    | invalid hproblems =>
      simp only [findingOf, hproblems]
      rfl
  · rintro rfl
    exact isOf_findingOf label item

/-- A test case is found at an item if and only if the item is that test case. -/
theorem findingOf_eq_found_iff {label : Text} {item : Json} {case : TestCase} :
    findingOf label item = .found case ↔ case.IsItem item := by
  rw [eq_comm, ← isOf_iff]
  constructor
  · rintro ⟨⟩
    assumption
  · exact .found

end CaseFinding

/-! ### Labels -/

/-- The items of a document with their labels: an item on its own has the label of its entry, and
one of several, or of none, has its index besides. -/
inductive IsLabelled (label : Text) : List Json → List (Text × Json) → Prop
  | single (item : Json) : IsLabelled label [item] [(label, item)]
  | several {items : List Json} (hitems : items.length ≠ 1) :
      IsLabelled label items (items.zipIdx.map fun (item, index) =>
        (label ++ "[" ++ Text.ofNat index ++ "]", item))

theorem isLabelled_iff {label : Text} {items : List Json} {labelled : List (Text × Json)} :
    IsLabelled label items labelled ↔ labelled = items.zipIdx.map fun (item, index) =>
      (itemLabel label items.length index, item) := by
  constructor
  · intro h
    cases h with
    | single item => rfl
    | several hitems => simp only [itemLabel, if_neg hitems]
  · rintro rfl
    by_cases hitems : items.length = 1
    · obtain ⟨item, rfl⟩ := List.length_eq_one_iff.1 hitems
      exact .single item
    · simp only [itemLabel, if_neg hitems]
      exact .several hitems

theorem forall₂_eq_iff {α β : Type} {f : α → β} {xs : List α} {ys : List β} :
    List.Forall₂ (fun x y => y = f x) xs ys ↔ ys = xs.map f := by
  induction xs generalizing ys with
  | nil => cases ys <;> simp
  | cons x xs ih =>
    cases ys with
    | nil => simp
    | cons y ys => simp [ih]

/-! ### Entries -/

namespace CaseEntry

/-- Whether the bytes of an entry are those of a text that writes a document. -/
def Writes (maxDepth : Nat) (entry : CaseEntry) (document : Json) : Prop :=
  ∃ text, Utf8.encode text = .ok entry.bytes ∧ Json.read text maxDepth = .ok document

/-- Whether the text of an entry is a document or malformed, and passes no limit of the reader. -/
def KeepsLimits (maxDepth : Nat) (entry : CaseEntry) : Prop :=
  ∀ text error, Utf8.encode text = .ok entry.bytes → Json.read text maxDepth = .error error →
    ∃ complaint place, error = .malformed complaint place

/-- What stands for an entry: the problem with its bytes or with its text, or what stands for each
of its items. -/
inductive Finds (maxDepth : Nat) (entry : CaseEntry) : List CaseFinding → Prop
  | undecodable (hbytes : ∀ text, Utf8.encode text ≠ .ok entry.bytes) :
      Finds maxDepth entry [.problem (entry.label ++ ": " ++ "not valid UTF-8")]
  | malformed {text : Text} {complaint : Json.Complaint} {place : Json.Place}
      (htext : Utf8.encode text = .ok entry.bytes)
      (hread : Json.read text maxDepth = .error (.malformed complaint place)) :
      Finds maxDepth entry [.problem (entry.label ++ ": " ++
        ("invalid JSON: " ++ (Json.ReadError.malformed complaint place).message))]
  | items {document : Json} {labelled : List (Text × Json)} {findings : List CaseFinding}
      (hdocument : entry.Writes maxDepth document)
      (hlabelled : IsLabelled entry.label (itemsOf document) labelled)
      (hfindings : List.Forall₂ (fun p finding => CaseFinding.IsOf p.1 p.2 finding) labelled
        findings) : Finds maxDepth entry findings

variable {maxDepth : Nat}

theorem findings_eq_of_writes {entry : CaseEntry} {document : Json}
    (h : entry.Writes maxDepth document) :
    entry.findings maxDepth = .ok (documentFindings entry.label document) := by
  obtain ⟨text, htext, hread⟩ := h
  simp only [CaseEntry.findings, Utf8.decode?_eq_some_iff.2 htext, hread]

/-- An entry that writes a document passes no limit. -/
theorem Writes.keepsLimits {entry : CaseEntry} {document : Json}
    (h : entry.Writes maxDepth document) : entry.KeepsLimits maxDepth := by
  obtain ⟨text, htext, hread⟩ := h
  intro text' error htext' hread'
  obtain rfl := Option.some.inj
    ((Utf8.decode?_eq_some_iff.2 htext).symm.trans (Utf8.decode?_eq_some_iff.2 htext'))
  cases hread.symm.trans hread'

theorem finds_documentFindings {entry : CaseEntry} {document : Json}
    (h : entry.Writes maxDepth document) :
    entry.Finds maxDepth (documentFindings entry.label document) := by
  refine .items h (isLabelled_iff.2 rfl) ?_
  simp only [CaseFinding.isOf_iff]
  rw [forall₂_eq_iff, List.map_map]
  rfl

/-- What stands for an entry is what loading finds there. -/
theorem finds_iff {entry : CaseEntry} {findings : List CaseFinding} :
    entry.Finds maxDepth findings ↔ entry.findings maxDepth = .ok findings := by
  constructor
  · intro h
    cases h with
    | undecodable hbytes =>
      have hdecode : Utf8.decode? entry.bytes = none :=
        Option.eq_none_iff_forall_ne_some.2 fun text h => hbytes text (Utf8.decode?_eq_some_iff.1 h)
      simp only [CaseEntry.findings, hdecode]
      rfl
    | malformed htext hread =>
      simp only [CaseEntry.findings, Utf8.decode?_eq_some_iff.2 htext, hread]
      rfl
    | items hdocument hlabelled hfindings =>
      simp only [CaseFinding.isOf_iff] at hfindings
      rw [forall₂_eq_iff, isLabelled_iff.1 hlabelled, List.map_map] at hfindings
      rw [findings_eq_of_writes hdocument, hfindings]
      rfl
  · intro h
    cases hdecode : Utf8.decode? entry.bytes with
    | none =>
      simp only [CaseEntry.findings, hdecode] at h
      obtain rfl := Except.ok.inj h
      refine .undecodable fun text htext => ?_
      rw [Utf8.decode?_eq_some_iff.2 htext] at hdecode
      cases hdecode
    | some text =>
      have htext := Utf8.decode?_eq_some_iff.1 hdecode
      cases hread : Json.read text maxDepth with
      | ok document =>
        have hdocument : entry.Writes maxDepth document := ⟨text, htext, hread⟩
        rw [findings_eq_of_writes hdocument] at h
        obtain rfl := Except.ok.inj h
        exact finds_documentFindings hdocument
      | error error =>
        simp only [CaseEntry.findings, hdecode, hread] at h
        cases error with
        | malformed complaint place =>
          obtain rfl := Except.ok.inj h
          exact .malformed htext hread
        | longInteger digits => cases h
        | deepNesting inObject => cases h

theorem Finds.eq_of_writes {entry : CaseEntry} {findings : List CaseFinding} {document : Json}
    (h : entry.Finds maxDepth findings) (hdocument : entry.Writes maxDepth document) :
    findings = documentFindings entry.label document :=
  Except.ok.inj ((finds_iff.1 h).symm.trans (findings_eq_of_writes hdocument))

/-- Something stands for every entry that passes no limit. -/
theorem KeepsLimits.exists_finds {entry : CaseEntry} (h : entry.KeepsLimits maxDepth) :
    ∃ findings, entry.Finds maxDepth findings := by
  by_cases hbytes : ∃ text, Utf8.encode text = .ok entry.bytes
  · obtain ⟨text, htext⟩ := hbytes
    cases hread : Json.read text maxDepth with
    | ok document => exact ⟨_, finds_documentFindings ⟨text, htext, hread⟩⟩
    | error error =>
      obtain ⟨complaint, place, rfl⟩ := h text error htext hread
      exact ⟨_, .malformed htext hread⟩
  · exact ⟨_, .undecodable (not_exists.1 hbytes)⟩

/-- What stands for all entries, in their order. -/
def AllFind (maxDepth : Nat) (entries : List CaseEntry) (findings : List CaseFinding) : Prop :=
  ∃ found, List.Forall₂ (Finds maxDepth) entries found ∧ findings = found.flatten

/-- Loading goes through all entries. -/
theorem exists_allFind {entries : List CaseEntry}
    (h : ∀ entry ∈ entries, entry.KeepsLimits maxDepth) :
    ∃ findings, AllFind maxDepth entries findings ∧
      findingsOf maxDepth entries = (findings, none) := by
  induction entries with
  | nil => exact ⟨[], ⟨[], .nil, rfl⟩, rfl⟩
  | cons entry entries ih =>
    obtain ⟨hentry, hentries⟩ := List.forall_mem_cons.1 h
    obtain ⟨findings, hfindings⟩ := hentry.exists_finds
    obtain ⟨_, ⟨found, hfound, rfl⟩, hrest⟩ := ih hentries
    refine ⟨findings ++ found.flatten, ⟨findings :: found, .cons hfindings hfound, rfl⟩, ?_⟩
    simp only [findingsOf, finds_iff.1 hfindings, hrest]

/-! ### Test cases -/

/-- The test cases of an entry all of whose items are test cases. -/
def HasCases (maxDepth : Nat) (entry : CaseEntry) (cases : List TestCase) : Prop :=
  ∃ document, entry.Writes maxDepth document ∧
    List.Forall₂ (fun item (case : TestCase) => case.IsItem item) (itemsOf document) cases

/-- The test cases of entries, in the order of entries and items. -/
def AreCases (maxDepth : Nat) (entries : List CaseEntry) (cases : List TestCase) : Prop :=
  ∃ parts, List.Forall₂ (HasCases maxDepth) entries parts ∧ cases = parts.flatten

theorem map_findingOf_eq_iff (label : Nat → Text) (n : Nat) {items : List Json}
    {cases : List TestCase} :
    ((items.zipIdx n).map fun (item, index) => findingOf (label index) item) =
      cases.map .found ↔
    List.Forall₂ (fun item (case : TestCase) => case.IsItem item) items cases := by
  induction items generalizing n cases with
  | nil => cases cases <;> simp
  | cons item items ih =>
    cases cases with
    | nil => simp
    | cons case cases =>
      simp only [List.zipIdx_cons, List.map_cons, List.cons.injEq, List.forall₂_cons,
        CaseFinding.findingOf_eq_found_iff, ih]

/-- Only test cases stand for an entry if and only if they are its test cases. -/
theorem Finds.hasCases_iff {entry : CaseEntry} {findings : List CaseFinding} {cases : List TestCase}
    (h : entry.Finds maxDepth findings) :
    entry.HasCases maxDepth cases ↔ findings = cases.map .found := by
  have hdocument {document : Json} (hwrites : entry.Writes maxDepth document) :
      findings = cases.map .found ↔
        List.Forall₂ (fun item (case : TestCase) => case.IsItem item) (itemsOf document) cases := by
    rw [h.eq_of_writes hwrites]
    exact map_findingOf_eq_iff _ 0
  constructor
  · rintro ⟨document, hwrites, hcases⟩
    exact (hdocument hwrites).2 hcases
  · intro hfindings
    cases h with
    | undecodable => cases cases <;> cases hfindings
    | malformed => cases cases <;> cases hfindings
    | items hwrites => exact ⟨_, hwrites, (hdocument hwrites).1 hfindings⟩

/-- Only test cases stand for the entries if and only if they are their test cases. -/
theorem AllFind.areCases_iff {entries : List CaseEntry} {findings : List CaseFinding}
    {cases : List TestCase} (h : AllFind maxDepth entries findings) :
    AreCases maxDepth entries cases ↔ findings = cases.map .found := by
  obtain ⟨found, hfound, rfl⟩ := h
  constructor
  · rintro ⟨parts, hparts, rfl⟩
    rw [List.map_flatten]
    congr 1
    induction hfound generalizing parts with
    | nil =>
      cases hparts
      rfl
    | cons hentry _ ih =>
      cases hparts with
      | cons hpart hparts => rw [hentry.hasCases_iff.1 hpart, ih _ hparts, List.map_cons]
  · intro hcases
    induction hfound generalizing cases with
    | nil =>
      obtain rfl := List.map_eq_nil_iff.1 hcases.symm
      exact ⟨[], .nil, rfl⟩
    | cons hentry _ ih =>
      obtain ⟨part, more, rfl, hpart, hmore⟩ := List.map_eq_append_iff.1 hcases.symm
      obtain ⟨parts, hparts, rfl⟩ := ih hmore.symm
      exact ⟨part :: parts, .cons (hentry.hasCases_iff.2 hpart.symm) hparts, rfl⟩

end CaseEntry

/-! ### Loading -/

/-- There are no problems if and only if all that was found is test cases. -/
theorem CaseFinding.problems_eq_nil_iff {findings : List CaseFinding} :
    findings.filterMap problem? = [] ↔ ∃ cases : List TestCase, findings = cases.map .found := by
  constructor
  · intro h
    induction findings with
    | nil => exact ⟨[], rfl⟩
    | cons finding findings ih =>
      cases finding with
      | problem text => cases h
      | found case =>
        obtain ⟨cases, rfl⟩ := ih h
        exact ⟨case :: cases, rfl⟩
  · rintro ⟨cases, rfl⟩
    rw [List.filterMap_map]
    exact List.filterMap_eq_nil_iff.2 fun _ _ => rfl

theorem CaseFinding.filterMap_case? (cases : List TestCase) :
    (cases.map CaseFinding.found).filterMap case? = cases := by
  rw [List.filterMap_map]
  exact List.filterMap_some

theorem CaseFinding.filterMap_event? (findings : List CaseFinding) :
    findings.filterMap event? =
      (findings.filterMap case?).map fun case => .caseLoaded case.id case.truths.length := by
  rw [List.map_filterMap]
  congr 1
  funext finding
  cases finding <;> rfl

/-- Nothing is wrong with findings if and only if they are test cases with different ids. -/
theorem problemsOf_eq_nil_iff {findings : List CaseFinding} :
    problemsOf findings = [] ↔
      ∃ cases : List TestCase, findings = cases.map .found ∧ (cases.map (·.id)).Nodup := by
  rw [problemsOf, List.append_eq_nil_iff, List.map_eq_nil_iff, CaseFinding.problems_eq_nil_iff,
    (TestCase.isRepeated_repeatedIds _).eq_nil_iff]
  constructor
  · rintro ⟨⟨cases, rfl⟩, hnodup⟩
    rw [CaseFinding.filterMap_case?] at hnodup
    exact ⟨cases, rfl, hnodup⟩
  · rintro ⟨cases, rfl, hnodup⟩
    rw [CaseFinding.filterMap_case?]
    exact ⟨⟨cases, rfl⟩, hnodup⟩

/-- How loading ends: with the test cases if there are no problems, and else with all problems. -/
inductive CaseLoading.Ends (source : Text) (cases : List TestCase) (problems : List Text) :
    Except Failure (List TestCase) → CaseEvent → Prop
  | completed (hproblems : problems = []) :
      Ends source cases problems (.ok cases) (.loadingCompleted source cases.length)
  | failed (hproblems : problems ≠ []) :
      Ends source cases problems (.error (unloadable (Text.join "; " problems)))
        (.loadingFailed source (Text.join "; " problems))

theorem ends_settle (source : Text) (findings : List CaseFinding) :
    CaseLoading.Ends source (findings.filterMap CaseFinding.case?) (problemsOf findings)
      (settle source findings).1 (settle source findings).2 := by
  rw [settle]
  by_cases h : problemsOf findings = []
  · rw [if_pos h]
    exact .completed h
  · rw [if_neg h]
    exact .failed h

/-- Loading succeeds if and only if only test cases with different ids were found. -/
theorem fst_settle_eq_ok_iff {source : Text} {findings : List CaseFinding}
    {cases : List TestCase} : (settle source findings).1 = .ok cases ↔
      findings = cases.map .found ∧ (cases.map (·.id)).Nodup := by
  rw [settle]
  constructor
  · intro h
    by_cases hproblems : problemsOf findings = []
    · rw [if_pos hproblems] at h
      obtain rfl := Except.ok.inj h
      obtain ⟨cases, rfl, hnodup⟩ := problemsOf_eq_nil_iff.1 hproblems
      rw [CaseFinding.filterMap_case?]
      exact ⟨rfl, hnodup⟩
    · rw [if_neg hproblems] at h
      cases h
  · rintro ⟨rfl, hnodup⟩
    rw [if_pos (problemsOf_eq_nil_iff.2 ⟨cases, rfl, hnodup⟩), CaseFinding.filterMap_case?]

variable {maxDepth : Nat}

theorem loadEntries_eq {entries : List CaseEntry} {findings : List CaseFinding}
    (h : findingsOf maxDepth entries = (findings, none)) (source : Text) :
    loadEntries maxDepth source entries = ⟨(settle source findings).1,
      findings.filterMap CaseFinding.event? ++ [(settle source findings).2]⟩ := by
  simp only [loadEntries, h]

/-- When loading from entries succeeds, only test cases with different ids were found. -/
theorem findingsOf_eq_of_loadEntries {source : Text} {entries : List CaseEntry}
    {cases : List TestCase} (h : (loadEntries maxDepth source entries).outcome = .ok cases) :
    findingsOf maxDepth entries = (cases.map .found, none) ∧ (cases.map (·.id)).Nodup := by
  rcases hfindings : findingsOf maxDepth entries with ⟨findings, _ | failure⟩
  · rw [loadEntries_eq hfindings] at h
    obtain ⟨rfl, hnodup⟩ := fst_settle_eq_ok_iff.1 h
    exact ⟨rfl, hnodup⟩
  · rw [loadEntries, hfindings] at h
    cases h

namespace CaseSourceConfig

variable {config : CaseSourceConfig} {files : FileTree} {path : Path} {entries : List CaseEntry}

theorem loadFiles_eq (hsource : config.source ≠ .samples) (hpath : config.path = some path)
    (hentries : config.source.entries files path = .ok entries) :
    config.loadFiles files maxDepth = { loadEntries maxDepth config.source.name entries with
      events := .loadingStarted config.source.name (some path.text) ::
        (loadEntries maxDepth config.source.name entries).events } := by
  obtain ⟨source, _⟩ := config
  obtain rfl := hpath
  cases source with
  | samples => exact absurd rfl hsource
  | jsonl => simp only [loadFiles, loadPath, hentries]
  | directory => simp only [loadFiles, loadPath, hentries]

/-- **Loading accounts for every entry.** Of a source that can be read, and whose entries pass no
limit of the reader, loading succeeds with some test cases if and only if they are all items of all
entries, in their order, and have different ids. Something stands for every entry, and it fails with
the problems among this, in their order, and after them one for each id that is repeated. Either way
each test case found is an event, in order. -/
theorem loadFiles_account (hsource : config.source ≠ .samples) (hpath : config.path = some path)
    (hentries : config.source.entries files path = .ok entries)
    (hlimits : ∀ entry ∈ entries, entry.KeepsLimits maxDepth) :
    config.source.HasEntries files path entries ∧
    (∀ cases, (config.loadFiles files maxDepth).outcome = .ok cases ↔
      CaseEntry.AreCases maxDepth entries cases ∧ (cases.map (·.id)).Nodup) ∧
    ∃ findings cases repeated last, CaseEntry.AllFind maxDepth entries findings ∧
      cases = findings.filterMap CaseFinding.case? ∧
      IsRepeated (cases.map (·.id)) repeated ∧
      (config.loadFiles files maxDepth).events =
        .loadingStarted config.source.name (some path.text) ::
          cases.map (fun case => .caseLoaded case.id case.truths.length) ++ [last] ∧
      CaseLoading.Ends config.source.name cases
        (findings.filterMap CaseFinding.problem? ++ repeated.map repeatedIdProblem)
        (config.loadFiles files maxDepth).outcome last := by
  obtain ⟨findings, hall, hfindings⟩ := CaseEntry.exists_allFind hlimits
  rw [loadFiles_eq hsource hpath hentries, loadEntries_eq hfindings]
  refine ⟨CaseSource.hasEntries_of_entries hsource hentries, fun cases => ?_,
    findings, _, _, _, hall, rfl, TestCase.isRepeated_repeatedIds _, ?_, ends_settle _ _⟩
  · rw [fst_settle_eq_ok_iff, hall.areCases_iff]
  · rw [CaseFinding.filterMap_event?]
    rfl

/-- A line that writes a test case with an id. -/
def idLine (id : Text) : Text :=
  "\x7b\"id\":\"" ++ id ++ "\",\"name\":\"\",\"source_code\":\"\"\x7d"

/-- The document of this line. -/
def idItem (id : Text) : Json :=
  .object [("id", .text id), ("name", .text []), ("source_code", .text [])]

/-- The test case of this line. -/
def idCase (id : Text) : TestCase := ⟨id, [], [], [], none⟩

/-- A line that writes a list of a test case and of an object without members. -/
def pairLine : Text := "[" ++ idLine "a" ++ ",\x7b\x7d]"

/-- The document of `pairLine`. -/
def pairItem : Json := .array [idItem "a", .object []]

/-- A file of lines. -/
def caseLines : CaseSourceConfig := ⟨.jsonl, some ⟨0, [Text.ofString "cases.jsonl"]⟩⟩

/-- The files with a blank line and the line of one test case in its place. -/
def caseLineFiles : FileTree :=
  [(.ofNames [Text.ofString "cases.jsonl"], .file (10 :: Utf8.written (idLine "a")))]

/-- The files with a blank line, that line and `pairLine` in its place. -/
def caseLinesFiles : FileTree :=
  [(.ofNames [Text.ofString "cases.jsonl"],
    .file (10 :: Utf8.written (idLine "a" ++ "\n" ++ pairLine)))]

/-- The entry of the test case, which is the second line. -/
def caseLineEntry : CaseEntry := ⟨"cases.jsonl:2", Utf8.written (idLine "a")⟩

/-- The entry of `pairLine`, which is the third line. -/
def pairLineEntry : CaseEntry := ⟨"cases.jsonl:3", Utf8.written pairLine⟩

theorem writes_caseLineEntry : caseLineEntry.Writes Json.usualDepth (idItem "a") :=
  ⟨idLine "a", rfl, by cbv⟩

theorem writes_pairLineEntry : pairLineEntry.Writes Json.usualDepth pairItem :=
  ⟨pairLine, rfl, by cbv⟩

/-- What is wrong with the second item of `pairLine`. -/
def pairProblem : Text := "cases.jsonl:3[1]: invalid test case (id, name, source_code)"

/-- What is wrong with the lines. -/
def caseLinesReason : Text :=
  "cases.jsonl:3[1]: invalid test case (id, name, source_code); duplicate test case id 'a'"

/-- A blank line and a test case are loaded as that test case. With the list after them loading
fails for its second item, which is told by its place, and for the id of its first one. -/
theorem loadFiles_account_caseLines :
    (∀ entry ∈ [caseLineEntry, pairLineEntry], entry.KeepsLimits Json.usualDepth) ∧
    (caseLines.loadFiles caseLineFiles).outcome = .ok [idCase "a"] ∧
    (caseLines.loadFiles caseLinesFiles).outcome = .error (unloadable caseLinesReason) ∧
    (caseLines.loadFiles caseLinesFiles).events =
      [.loadingStarted "jsonl" (some "cases.jsonl"), .caseLoaded "a" 0, .caseLoaded "a" 0,
        .loadingFailed "jsonl" caseLinesReason] := by
  have hlimits : ∀ entry ∈ [caseLineEntry, pairLineEntry], entry.KeepsLimits Json.usualDepth :=
    List.forall_mem_cons.2 ⟨writes_caseLineEntry.keepsLimits,
      List.forall_mem_singleton.2 writes_pairLineEntry.keepsLimits⟩
  have hcases : caseLineEntry.HasCases Json.usualDepth [idCase "a"] :=
    ⟨idItem "a", writes_caseLineEntry, .cons ⟨⟨_, rfl⟩, rfl⟩ .nil⟩
  have hone := @loadFiles_account Json.usualDepth caseLines caseLineFiles _ [caseLineEntry]
    (by decide) rfl rfl (List.forall_mem_singleton.2 writes_caseLineEntry.keepsLimits)
  obtain ⟨-, -, _, _, repeated, last, ⟨_, hfound, rfl⟩, rfl, hrepeated, hevents, hends⟩ :=
    @loadFiles_account Json.usualDepth caseLines caseLinesFiles _ [caseLineEntry, pairLineEntry]
      (by decide) rfl rfl hlimits
  obtain ⟨_, _, hline, hrest, rfl⟩ := List.forall₂_cons_left_iff.1 hfound
  obtain ⟨_, _, hpair, hnone, rfl⟩ := List.forall₂_cons_left_iff.1 hrest
  obtain rfl := List.forall₂_nil_left_iff.1 hnone
  obtain rfl := hline.eq_of_writes writes_caseLineEntry
  obtain rfl := hpair.eq_of_writes writes_pairLineEntry
  have hfindings : [documentFindings caseLineEntry.label (idItem "a"),
      documentFindings pairLineEntry.label pairItem].flatten =
      [.found (idCase "a"), .found (idCase "a"), .problem pairProblem] := rfl
  rw [hfindings] at hends hevents hrepeated
  obtain rfl : repeated = [Text.ofString "a"] := IsRepeated.eq_singleton hrepeated
  have hreason : Text.join "; " [pairProblem, repeatedIdProblem "a"] = caseLinesReason := by decide
  generalize (caseLines.loadFiles caseLinesFiles).outcome = outcome at hends ⊢
  replace hends : CaseLoading.Ends "jsonl" [idCase "a", idCase "a"]
    [pairProblem, repeatedIdProblem "a"] outcome last := hends
  refine ⟨hlimits, (hone.2.1 _).2 ⟨⟨[[idCase "a"]], .cons hcases .nil, rfl⟩, by decide⟩, ?_⟩
  rw [hevents]
  cases hends with
  | completed hproblems => cases hproblems
  | failed =>
    rw [hreason]
    exact ⟨rfl, rfl⟩

end CaseSourceConfig

end TypeBench
