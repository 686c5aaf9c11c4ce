import TypeBench.Proofs.TestCase.Ending

/-!
# Ids of loaded test cases

A test case is known by its id alone. The search for repeated ids finds an id when it comes a second
time, and passes it by when it comes again: so it finds the ids at the places of their second
occurrences, in the order of these places. Loading fails for any of them, whatever it loads from.

## Main definitions

* `secondOccurrences`: the ids at the places of their second occurrences.

## Main results

* `IdSearch.repeated_foldl`: the search finds the second occurrences.
* `CaseSourceConfig.exists_of_loadFiles_eq_ok`: what has been found when loading succeeds.
* `TestCase.repeatedIds_settled`: the ids that are reported, and the ids of what is loaded.
-/

namespace TypeBench

/-- The ids at the places of a list before which they occur once, in the order of these places. -/
def secondOccurrences (ids : List Text) : List Text :=
  (ids.zipIdx.filter fun (id, place) => (ids.take place).count id = 1).map (·.1)

example : secondOccurrences ["a", "b", "b", "a", "c", "a", "b"] = ["b", "a"] := by decide

/-- One more id is a second occurrence if it has occurred once. -/
theorem secondOccurrences_concat (ids : List Text) (id : Text) :
    secondOccurrences (ids ++ [id]) =
      if ids.count id = 1 then secondOccurrences ids ++ [id] else secondOccurrences ids := by
  -- The ids before an earlier place are the same as without the last one.
  have hbefore : ids.zipIdx.filter (fun (other, place) =>
      ((ids ++ [id]).take place).count other = 1) =
        ids.zipIdx.filter fun (other, place) => (ids.take place).count other = 1 := by
    apply List.filter_congr
    rintro ⟨other, place⟩ hentry
    have hplace : place < ids.length := List.snd_lt_of_mem_zipIdx hentry
    simp only [List.take_append_of_le_length (Nat.le_of_lt hplace)]
  have hlast : (ids ++ [id]).take ids.length = ids := List.take_left
  rw [secondOccurrences, List.zipIdx_append, List.filter_append, hbefore, List.map_append,
    ← secondOccurrences, Nat.zero_add, List.zipIdx_singleton, List.filter_singleton]
  simp only [hlast, Bool.cond_decide]
  split_ifs
  · rfl
  · exact List.append_nil _

/-- The search finds the second occurrences. -/
theorem IdSearch.repeated_foldl (ids : List Text) :
    (ids.foldl next ⟨[], []⟩).repeated = secondOccurrences ids := by
  induction ids using List.reverseRecOn with
  | nil => rfl
  | append_singleton ids id ih =>
    rw [List.foldl_append, secondOccurrences_concat, ← ih]
    exact (tells_foldl ids).repeated_next id

namespace CaseSourceConfig

variable {maxDepth : Nat} {config : CaseSourceConfig} {files : FileTree} {cases : List TestCase}

/-- When loading succeeds, it has found nothing but test cases, and no two of them have one id. -/
theorem exists_of_loadFiles_eq_ok (h : (config.loadFiles files maxDepth).outcome = .ok cases) :
    ∃ path entries, config.path = some path ∧ config.source.entries files path = .ok entries ∧
      findingsOf maxDepth entries = (cases.map .found, none) ∧ (cases.map (·.id)).Nodup := by
  obtain ⟨source, _ | path⟩ := config
  · cases source <;> cases h
  have hsource : source ≠ .samples := by
    rintro rfl
    cases h
  rw [loadFiles_eq_loadPath hsource rfl] at h
  obtain ⟨entries, hentries, hload⟩ := exists_entries_of_loadPath h
  dsimp only at h
  rw [hload] at h
  exact ⟨path, entries, rfl, hentries, findingsOf_eq_of_loadEntries h⟩

end CaseSourceConfig

namespace TestCase

/-- **Repeated ids.** Of any test cases, those ids are reported that occur at least twice, each of
them once and in the order of their second occurrences; there are none if and only if all ids are
different, and so are the ids of all test cases that are loaded from files. -/
theorem repeatedIds_settled (cases : List TestCase) :
    repeatedIds cases = secondOccurrences (cases.map (·.id)) ∧
    (repeatedIds cases).map repeatedIdProblem = (secondOccurrences (cases.map (·.id))).map
      (fun id : Text => "duplicate test case id '" ++ id ++ "'") ∧
    (repeatedIds cases).Nodup ∧
    (∀ id, id ∈ repeatedIds cases ↔ 2 ≤ (cases.map (·.id)).count id) ∧
    ((repeatedIds cases).map repeatedIdProblem = [] ↔ (cases.map (·.id)).Nodup) ∧
    ∀ (config : CaseSourceConfig) (files : FileTree) (maxDepth : Nat),
      (config.loadFiles files maxDepth).outcome = .ok cases → (cases.map (·.id)).Nodup := by
  have hfound : repeatedIds cases = secondOccurrences (cases.map (·.id)) :=
    IdSearch.repeated_foldl _
  have hrepeated := isRepeated_repeatedIds cases
  refine ⟨hfound, ?_, hrepeated.nodup, hrepeated.mem_iff, ?_, fun config files maxDepth h => ?_⟩
  · rw [hfound]
    rfl
  · rw [List.map_eq_nil_iff, hrepeated.eq_nil_iff]
  · obtain ⟨_, _, -, -, -, hnodup⟩ := CaseSourceConfig.exists_of_loadFiles_eq_ok h
    exact hnodup

open CaseSourceConfig (idLine idItem idCase)

/-- A file of lines. -/
def pairConfig : CaseSourceConfig := ⟨.jsonl, some ⟨0, [Text.ofString "pair.jsonl"]⟩⟩

/-- The files with two lines in its place. -/
def pairFiles : FileTree :=
  [(.ofNames [Text.ofString "pair.jsonl"],
    .file (Utf8.written (idLine "a" ++ "\n" ++ idLine "b")))]

/-- The entries of this file. -/
def pairEntries : List CaseEntry :=
  [⟨"pair.jsonl:1", Utf8.written (idLine "a")⟩, ⟨"pair.jsonl:2", Utf8.written (idLine "b")⟩]

theorem outcome_loadFiles_pair :
    (pairConfig.loadFiles pairFiles).outcome = .ok [idCase "a", idCase "b"] := by
  have hentries : pairConfig.source.entries pairFiles ⟨0, [Text.ofString "pair.jsonl"]⟩ =
      .ok pairEntries := rfl
  have hfirst : CaseEntry.Writes Json.usualDepth
      ⟨"pair.jsonl:1", Utf8.written (idLine "a")⟩ (idItem "a") := ⟨idLine "a", rfl, by cbv⟩
  have hsecond : CaseEntry.Writes Json.usualDepth
      ⟨"pair.jsonl:2", Utf8.written (idLine "b")⟩ (idItem "b") := ⟨idLine "b", rfl, by cbv⟩
  have hfound : findingsOf Json.usualDepth pairEntries =
      ([idCase "a", idCase "b"].map .found, none) := by
    simp only [pairEntries, findingsOf, CaseEntry.findings_eq_of_writes hfirst,
      CaseEntry.findings_eq_of_writes hsecond]
    rfl
  rw [CaseSourceConfig.loadFiles_eq (by decide) rfl hentries]
  dsimp only
  rw [loadEntries_eq hfound]
  exact fst_settle_eq_ok_iff.2 ⟨rfl, by decide⟩

theorem repeatedIds_settled_pair :
    (pairConfig.loadFiles pairFiles).outcome = .ok [idCase "a", idCase "b"] ∧
      ([idCase "a", idCase "b"].map (·.id)).Nodup :=
  ⟨outcome_loadFiles_pair, (repeatedIds_settled [idCase "a", idCase "b"]).2.2.2.2.2 pairConfig
    pairFiles _ outcome_loadFiles_pair⟩

end TestCase

end TypeBench
