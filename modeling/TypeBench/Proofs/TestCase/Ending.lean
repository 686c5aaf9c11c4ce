import Mathlib.Data.List.TakeWhile
import TypeBench.Proofs.TestCase.Account

/-!
# How loading ends

Loading begins with one event and ends with another, which tells of its outcome. It breaks off
without the second one where it meets something that is no problem of an entry: a path that the
system is not even asked for, or a document that passes a limit of the reader. It then fails with
just that, and none of the problems found before is told of.

## Main definitions

* `CaseLoading.Concludes`: the last event for an outcome.
* `CaseEntry.PassesLimit`: an entry that passes a limit of the reader.
* `CaseSourceConfig.BreaksOff`: where loading breaks off, and with which failure.

## Main results

* `CaseSource.refuses_iff`: which paths of files of lines are refused.
* `CaseSourceConfig.loadFiles_concludes`: loading concludes unless it breaks off.
* `CaseSourceConfig.not_concludes_digitLine`: a line of too many digits breaks it off.
-/

namespace TypeBench

/-- The last event of loading for its outcome: test cases are completed, and a list of problems or
the reason for which nothing can be read has failed. -/
inductive CaseLoading.Concludes (source : Text) : Except Failure (List TestCase) → CaseEvent → Prop
  | completed (cases : List TestCase) :
      Concludes source (.ok cases) (.loadingCompleted source cases.length)
  | failed (reason : Text) :
      Concludes source (.error (unloadable reason)) (.loadingFailed source reason)

theorem CaseLoading.Ends.concludes {source : Text} {cases : List TestCase} {problems : List Text}
    {outcome : Except Failure (List TestCase)} {last : CaseEvent}
    (h : Ends source cases problems outcome last) : Concludes source outcome last := by
  cases h with
  | completed => exact .completed cases
  | failed => exact .failed _

/-! ### Limits -/

namespace CaseEntry

/-- Whether the text of an entry passes a limit of the reader, which an error tells. -/
def PassesLimit (maxDepth : Nat) (entry : CaseEntry) (error : Json.ReadError) : Prop :=
  (∃ text, Utf8.encode text = .ok entry.bytes ∧ Json.read text maxDepth = .error error) ∧
    ∀ complaint place, error ≠ .malformed complaint place

variable {maxDepth : Nat}

theorem not_keepsLimits_iff {entry : CaseEntry} :
    ¬entry.KeepsLimits maxDepth ↔ ∃ error, entry.PassesLimit maxDepth error := by
  constructor
  · intro h
    by_contra hnone
    refine h fun text error htext hread => ?_
    by_contra hlimit
    exact hnone ⟨error, ⟨text, htext, hread⟩, fun complaint place e => hlimit ⟨complaint, place, e⟩⟩
  · rintro ⟨error, ⟨text, htext, hread⟩, hlimit⟩ hkeeps
    obtain ⟨complaint, place, e⟩ := hkeeps text error htext hread
    exact hlimit complaint place e

/-- Entries keep all limits, or one of them is the first to pass one. -/
theorem keepsLimits_or_exists_first (maxDepth : Nat) (entries : List CaseEntry) :
    (∀ entry ∈ entries, entry.KeepsLimits maxDepth) ∨ ∃ before entry after error,
      entries = before ++ entry :: after ∧ (∀ e ∈ before, e.KeepsLimits maxDepth) ∧
        entry.PassesLimit maxDepth error := by
  induction entries with
  | nil => exact .inl (List.forall_mem_nil _)
  | cons entry entries ih =>
    by_cases hentry : entry.KeepsLimits maxDepth
    · rcases ih with hkeep | ⟨before, next, after, error, rfl, hbefore, hnext⟩
      · exact .inl (List.forall_mem_cons.2 ⟨hentry, hkeep⟩)
      · exact .inr ⟨entry :: before, next, after, error, rfl,
          List.forall_mem_cons.2 ⟨hentry, hbefore⟩, hnext⟩
    · obtain ⟨error, hlimit⟩ := not_keepsLimits_iff.1 hentry
      exact .inr ⟨[], entry, entries, error, rfl, List.forall_mem_nil _, hlimit⟩

theorem PassesLimit.findings_eq {entry : CaseEntry} {error : Json.ReadError}
    (h : entry.PassesLimit maxDepth error) :
    entry.findings maxDepth = .error (.unreadable error) := by
  obtain ⟨⟨text, htext, hread⟩, hlimit⟩ := h
  simp only [CaseEntry.findings, Utf8.decode?_eq_some_iff.2 htext, hread]

/-- Findings are collected up to the first entry that passes a limit. -/
theorem findingsOf_of_passesLimit {before : List CaseEntry} {entry : CaseEntry}
    {error : Json.ReadError} (hbefore : ∀ e ∈ before, e.KeepsLimits maxDepth)
    (hentry : entry.PassesLimit maxDepth error) (after : List CaseEntry) :
    ∃ findings, AllFind maxDepth before findings ∧
      findingsOf maxDepth (before ++ entry :: after) = (findings, some (.unreadable error)) := by
  induction before with
  | nil =>
    refine ⟨[], ⟨[], .nil, rfl⟩, ?_⟩
    simp only [List.nil_append, findingsOf, hentry.findings_eq]
  | cons first before ih =>
    obtain ⟨hfirst, hrest⟩ := List.forall_mem_cons.1 hbefore
    obtain ⟨findings, hfindings⟩ := hfirst.exists_finds
    obtain ⟨_, ⟨found, hfound, rfl⟩, hmore⟩ := ih hrest
    refine ⟨findings ++ found.flatten, ⟨findings :: found, .cons hfindings hfound, rfl⟩, ?_⟩
    simp only [List.cons_append, findingsOf, finds_iff.1 hfindings, hmore]

end CaseEntry

/-! ### Lines of digits -/

theorem CodePoint.ne_of_isDigit {c d : CodePoint} (h : c.isDigit = true) (hd : d.isDigit = false) :
    c ≠ d := by
  rintro rfl
  rw [h] at hd
  cases hd

namespace Json

theorem skipBlank_of_isDigit {c : CodePoint} (h : c.isDigit = true) (rest : Text) :
    skipBlank (c :: rest) = c :: rest := by
  have hblank {d : CodePoint} (hd : d.isDigit = false) : decide (c = d) = false :=
    decide_eq_false (CodePoint.ne_of_isDigit h hd)
  refine List.dropWhile_cons_of_neg ?_
  rw [hblank (by decide), hblank (by decide), hblank (by decide), hblank (by decide)]
  exact Bool.false_ne_true

/-- No word starts with a digit. -/
theorem findSome?_words_of_isDigit {c : CodePoint} (h : c.isDigit = true) (rest : Text) :
    words.findSome? (fun (word, value) =>
      (Text.after? (c :: rest) word).map fun rest => (value, rest)) = none := by
  have hword {d : CodePoint} (hd : d.isDigit = false) (more : Text) :
      Text.after? (c :: rest) (d :: more) = none := by
    have hne : (d == c) = false := beq_false_of_ne (CodePoint.ne_of_isDigit h hd).symm
    rw [Text.after?, List.isPrefixOf, hne, Bool.false_and]
    exact if_neg Bool.false_ne_true
  refine List.findSome?_eq_none_iff.2 fun word hmem => ?_
  simp only [words, List.mem_cons, List.not_mem_nil, or_false] at hmem
  rcases hmem with rfl | rfl | rfl | rfl | rfl | rfl <;>
    exact congrArg (Option.map _) (hword (by decide) _)

/-- An integer of too many digits passes a limit of the reader, at any depth. -/
theorem read_of_digits {t : Text} (hdigits : ∀ c ∈ t, CodePoint.isDigit c = true)
    (hhead : t.head? ≠ some ('0' : CodePoint)) (hlong : Text.maxIntegerDigits < t.length)
    (maxDepth : Nat) : read t maxDepth = .error (.longInteger t.length) := by
  obtain _ | ⟨c, rest⟩ := t
  · cases hlong
  obtain ⟨hc, hrest⟩ := List.forall_mem_cons.1 hdigits
  have hne {d : CodePoint} (hd : d.isDigit = false) : ¬c = d := CodePoint.ne_of_isDigit hc hd
  have hzero : ¬c = ('0' : CodePoint) := fun h => hhead (congrArg some h)
  have hwhole : wholePart? (c :: rest) = some (c :: rest, []) := by
    rw [wholePart?, if_neg hzero, if_pos hc, digits, List.takeWhile_eq_self_iff.2 hdigits,
      List.dropWhile_eq_nil_iff.2 hdigits]
  have hnumber : plainScalar (c :: rest) = .error (.limit (.longInteger (c :: rest).length)) := by
    rw [plainScalar, findSome?_words_of_isDigit hc]
    simp only [if_neg (hne (d := '-') (by decide)), unsignedNumber, hwhole, fraction, exponent,
      and_self, if_true, if_pos hlong]
  have hvalue (fuel depth : Nat) : value (fuel + 1) depth (c :: rest) =
      .error (.limit (.longInteger (c :: rest).length)) := by
    rw [value.eq_def]
    simp only [if_neg (hne (d := '"') (by decide)), if_neg (hne (d := '[') (by decide)),
      if_neg (hne (d := '\x7b') (by decide)), hnumber]
  have hmark : ¬(c :: rest).head? = some ('\uFEFF' : CodePoint) :=
    fun h => hne (by decide) (Option.some.inj h)
  rw [read, if_neg hmark, skipBlank_of_isDigit hc, hvalue]
  rfl

end Json

namespace Utf8

theorem encodePoint_of_isDigit {c : CodePoint} (h : c.isDigit = true) :
    encodePoint c = [UInt8.ofNat c.val] := by
  have hrange : 0x30 ≤ c.val ∧ c.val ≤ 0x39 := by simpa [CodePoint.isDigit] using h
  exact if_pos (by omega)

/-- The bytes of digits end no line and are no blanks. -/
theorem mem_written_digits {t : Text} (hdigits : ∀ c ∈ t, CodePoint.isDigit c = true) {b : UInt8}
    (hb : b ∈ written t) : isLineEnd b = false ∧ isBlankByte b = false := by
  obtain ⟨c, hc, hbyte⟩ := List.mem_flatMap.1 hb
  rw [encodePoint_of_isDigit (hdigits c hc), List.mem_singleton] at hbyte
  have hrange : 0x30 ≤ c.val ∧ c.val ≤ 0x39 := by simpa [CodePoint.isDigit] using hdigits c hc
  have hval : b.toNat = c.val := by
    rw [hbyte, toNat_ofNat (by omega)]
  have hne (d : UInt8) (hd : d.toNat < 0x30) : b ≠ d := by
    rintro rfl
    omega
  have hbelow : ¬b ≤ 13 := by
    rw [UInt8.le_iff_toNat_le, hval]
    exact fun h => absurd (hrange.1.trans h) (by decide)
  simp [isLineEnd, isBlankByte, hne 10 (by decide), hne 13 (by decide), hne 32 (by decide), hbelow]

end Utf8

/-- A file of digits has one line, which is its entry. -/
theorem lineEntries_digits {t : Text} (hne : t ≠ [])
    (hdigits : ∀ c ∈ t, CodePoint.isDigit c = true) (file : Text) :
    lineEntries file (Utf8.written t) = [⟨lineLabel file 0, Utf8.written t⟩] := by
  have hbytes : Utf8.written t ≠ [] := by
    obtain ⟨c, hc⟩ := List.exists_mem_of_ne_nil t hne
    have hbyte : UInt8.ofNat c.val ∈ Utf8.written t := by
      refine List.mem_flatMap.2 ⟨c, hc, ?_⟩
      rw [Utf8.encodePoint_of_isDigit (hdigits c hc)]
      exact List.mem_singleton_self _
    exact List.ne_nil_of_mem hbyte
  have hlines : linesOf (Utf8.written t) = [Utf8.written t] :=
    (isLines_iff.1 (.last hbytes fun b hb => (Utf8.mem_written_digits hdigits hb).1)).symm
  have hblank : (Utf8.written t).all isBlankByte = false := by
    obtain ⟨b, hb⟩ := List.exists_mem_of_ne_nil _ hbytes
    exact List.all_eq_false.2
      ⟨b, hb, Bool.eq_false_iff.1 (Utf8.mem_written_digits hdigits hb).2⟩
  rw [lineEntries, hlines]
  simp [hblank]

/-- An entry of too many digits passes a limit of the reader. -/
theorem CaseEntry.passesLimit_digits {t : Text} (hdigits : ∀ c ∈ t, CodePoint.isDigit c = true)
    (hhead : t.head? ≠ some ('0' : CodePoint)) (hlong : Text.maxIntegerDigits < t.length)
    (maxDepth : Nat) (label : Text) :
    (CaseEntry.mk label (Utf8.written t)).PassesLimit maxDepth (.longInteger t.length) := by
  have hsurrogate : t.hasSurrogate = false := by
    refine List.any_eq_false.2 fun c hc hsurrogate => ?_
    have hdigit := hdigits c hc
    simp only [CodePoint.isDigit, CodePoint.isSurrogate, Bool.and_eq_true, decide_eq_true_eq]
      at hdigit hsurrogate
    omega
  refine ⟨⟨t, Utf8.encode_eq_ok hsurrogate, Json.read_of_digits hdigits hhead hlong maxDepth⟩, ?_⟩
  intro complaint place h
  cases h

/-! ### Refused paths -/

/-- The files of a path are refused if and only if the system takes its text for no path. -/
theorem FileTree.pathFault?_isRefusal_iff {path : Path} :
    (∃ fault, pathFault? path = some fault ∧ fault.isRefusal = true) ↔
      Path.isUsable path.text = false := by
  rw [pathFault?, Path.isUsable]
  cases hrun : Path.strayRunFrom 0 path.text with
  | some run => simp [FileFault.isRefusal]
  | none =>
    by_cases hnul : Path.hasNul path.text = true
    · simp [hnul, FileFault.isRefusal]
    · by_cases hlong : maxPathLength < Path.byteLength path.text
      · simp [hnul, hlong, FileFault.isRefusal]
      · simp [hnul, hlong]

/-- Following names never refuses: only a path as a whole is refused. -/
theorem FileTree.not_isRefusal_of_follow {files : FileTree} {place : FilePlace}
    {names : List Text} {fault : FileFault} (h : files.follow place names = .error fault) :
    fault.isRefusal = false := by
  induction names generalizing place with
  | nil => cases h
  | cons name names ih =>
    rw [follow] at h
    split at h
    · obtain rfl := Except.error.inj h
      rfl
    · obtain rfl := Except.error.inj h
      rfl
    · split at h
      · obtain rfl := Except.error.inj h
        rfl
      · exact ih h

theorem FileTree.not_isRefusal_of_lookUp {files : FileTree} {path : Path} {fault : FileFault}
    (hpath : pathFault? path = none) (h : files.lookUp path = .error fault) :
    fault.isRefusal = false := by
  rw [lookUp, locate, hpath] at h
  cases hfollow : files.follow (.startOf path) path.names with
  | error fault' =>
    rw [hfollow] at h
    obtain rfl := Except.error.inj h
    exact not_isRefusal_of_follow hfollow
  | ok place =>
    rw [hfollow] at h
    dsimp only [bind, Except.bind] at h
    split at h
    · cases h
    · obtain rfl := Except.error.inj h
      rfl

theorem FileTree.not_isRefusal_of_read {files : FileTree} {path : Path} {fault : FileFault}
    (hpath : pathFault? path = none) (h : files.read path = .error fault) :
    fault.isRefusal = false := by
  rw [read] at h
  cases hfound : files.lookUp path with
  | error fault' =>
    rw [hfound] at h
    obtain rfl := Except.error.inj h
    exact not_isRefusal_of_lookUp hpath hfound
  | ok found =>
    rw [hfound] at h
    obtain ⟨place, bytes | _⟩ := found
    · cases h
    · obtain rfl := Except.error.inj h
      rfl

/-- Reading a file is refused if and only if its path is. -/
theorem FileTree.read_refuses_iff {files : FileTree} {path : Path} :
    (∃ fault, files.read path = .error fault ∧ fault.isRefusal = true) ↔
      Path.isUsable path.text = false := by
  rw [← pathFault?_isRefusal_iff]
  cases hpath : pathFault? path with
  | some fault =>
    have hread : files.read path = .error fault := by
      rw [read, lookUp, locate, hpath]
      rfl
    simp only [hread, Except.error.injEq, Option.some.injEq]
  | none =>
    refine iff_of_false ?_ nofun
    rintro ⟨fault, hread, hrefusal⟩
    rw [not_isRefusal_of_read hpath hread] at hrefusal
    cases hrefusal

/-- A file of lines is refused if and only if its path has a NUL or a stray surrogate. -/
theorem CaseSource.refuses_iff {files : FileTree} {path : Path} :
    (∃ fault, CaseSource.jsonl.entries files path = .error fault ∧ fault.isRefusal = true) ↔
      Path.isUsable path.text = false := by
  rw [← files.read_refuses_iff, entries]
  cases files.read path with
  | ok bytes => simp only [Except.map, reduceCtorEq, false_and, exists_false]
  | error fault => simp only [Except.map, Except.error.injEq]

/-! ### Loading -/

namespace CaseSourceConfig

/-- Loading from a path breaks off with a failure: with that of a path that is refused, or with
that of the first entry that passes a limit of the reader. -/
inductive BreaksOff (maxDepth : Nat) (source : CaseSource) (files : FileTree) (path : Path) :
    Failure → Prop
  | refused {fault : FileFault} (hpath : source.entries files path = .error fault)
      (hrefusal : fault.isRefusal = true) : BreaksOff maxDepth source files path (.file path fault)
  | limit {before after : List CaseEntry} {entry : CaseEntry} {error : Json.ReadError}
      (hentries : source.entries files path = .ok (before ++ entry :: after))
      (hbefore : ∀ e ∈ before, e.KeepsLimits maxDepth)
      (hentry : entry.PassesLimit maxDepth error) :
      BreaksOff maxDepth source files path (.unreadable error)

variable {maxDepth : Nat} {config : CaseSourceConfig} {files : FileTree} {path : Path}

theorem loadFiles_eq_loadPath (hsource : config.source ≠ .samples)
    (hpath : config.path = some path) : config.loadFiles files maxDepth =
      ⟨(loadPath maxDepth config.source files path).outcome,
        .loadingStarted config.source.name (some path.text) ::
          (loadPath maxDepth config.source files path).events⟩ := by
  obtain ⟨source, _⟩ := config
  obtain rfl := hpath
  cases source with
  | samples => exact absurd rfl hsource
  | jsonl => rfl
  | directory => rfl

/-- When loading from a path succeeds, there are entries at the path, and it is loading from
these. -/
theorem exists_entries_of_loadPath {source : CaseSource} {cases : List TestCase}
    (h : (loadPath maxDepth source files path).outcome = .ok cases) : ∃ entries,
      source.entries files path = .ok entries ∧
      loadPath maxDepth source files path = loadEntries maxDepth source.name entries := by
  rw [loadPath] at h ⊢
  cases hentries : source.entries files path with
  | ok entries => exact ⟨entries, rfl, rfl⟩
  | error fault =>
    rw [hentries] at h
    dsimp only at h
    split at h <;> cases h

/-- Loading that breaks off has told of test cases only. -/
theorem BreaksOff.loadPath {source : CaseSource} {failure : Failure}
    (h : BreaksOff maxDepth source files path failure) : ∃ told : List TestCase,
      loadPath maxDepth source files path =
        ⟨.error failure, told.map fun case => .caseLoaded case.id case.truths.length⟩ := by
  cases h with
  | refused hpath hrefusal =>
    refine ⟨[], ?_⟩
    simp only [CaseSourceConfig.loadPath, hpath, hrefusal, if_true]
    rfl
  | limit hentries hbefore hentry =>
    rename_i before after entry error
    obtain ⟨findings, -, hfindings⟩ := CaseEntry.findingsOf_of_passesLimit hbefore hentry after
    refine ⟨findings.filterMap CaseFinding.case?, ?_⟩
    simp only [CaseSourceConfig.loadPath, hentries, loadEntries, hfindings,
      CaseFinding.filterMap_event?]

/-- Loading that does not break off concludes. -/
theorem exists_concludes {source : CaseSource}
    (h : ∀ failure, ¬BreaksOff maxDepth source files path failure) :
    ∃ (told : List TestCase) (last : CaseEvent),
      (loadPath maxDepth source files path).events =
        told.map (fun case => .caseLoaded case.id case.truths.length) ++ [last] ∧
      CaseLoading.Concludes source.name (loadPath maxDepth source files path).outcome last := by
  cases hentries : source.entries files path with
  | error fault =>
    have hasked : ¬fault.isRefusal = true := fun hrefusal => h _ (.refused hentries hrefusal)
    simp only [loadPath, hentries, if_neg hasked]
    exact ⟨[], _, rfl, .failed _⟩
  | ok entries =>
    rcases CaseEntry.keepsLimits_or_exists_first maxDepth entries with
      hkeep | ⟨before, entry, after, error, rfl, hbefore, hentry⟩
    · obtain ⟨findings, -, hfindings⟩ := CaseEntry.exists_allFind hkeep
      simp only [loadPath, hentries, loadEntries_eq hfindings, CaseFinding.filterMap_event?]
      exact ⟨_, _, rfl, (ends_settle _ _).concludes⟩
    · exact absurd (.limit hentries hbefore hentry) (h _)

/-- Loading from a file of lines breaks off at its path if and only if the path is refused. -/
theorem exists_breaksOff_file_iff :
    (∃ fault, BreaksOff maxDepth .jsonl files path (.file path fault)) ↔
      Path.isUsable path.text = false := by
  rw [← @CaseSource.refuses_iff files path]
  refine exists_congr fun fault => ⟨fun h => ?_, fun h => .refused h.1 h.2⟩
  cases h with
  | refused hpath hrefusal => exact ⟨hpath, hrefusal⟩

/-- **How loading ends.** After its first event loading tells of test cases. Unless it breaks off,
it returns test cases or fails with a reason, and one more event tells which. If it breaks off, it
fails with what was met, which no event tells. At its path a file of lines does so if and only if
the path has a NUL or a stray surrogate. -/
theorem loadFiles_concludes (hsource : config.source ≠ .samples)
    (hpath : config.path = some path) :
    (∃ (told : List TestCase) (ending : List CaseEvent),
      (config.loadFiles files maxDepth).events =
        .loadingStarted config.source.name (some path.text) ::
          (told.map (fun case => .caseLoaded case.id case.truths.length) ++ ending) ∧
      ((∀ failure, ¬BreaksOff maxDepth config.source files path failure) → ∃ last, ending = [last] ∧
        CaseLoading.Concludes config.source.name (config.loadFiles files maxDepth).outcome last) ∧
      ∀ failure, BreaksOff maxDepth config.source files path failure →
        ending = [] ∧ (config.loadFiles files maxDepth).outcome = .error failure ∧
          ∀ reason, failure ≠ unloadable reason) ∧
    (config.source = .jsonl →
      ((∃ fault, BreaksOff maxDepth config.source files path (.file path fault)) ↔
        Path.isUsable path.text = false)) := by
  refine ⟨?_, fun hlines => hlines ▸ exists_breaksOff_file_iff⟩
  rw [loadFiles_eq_loadPath hsource hpath]
  by_cases hbreak : ∃ failure, BreaksOff maxDepth config.source files path failure
  · obtain ⟨failure, hfailure⟩ := hbreak
    obtain ⟨told, htold⟩ := hfailure.loadPath
    refine ⟨told, [], by rw [htold, List.append_nil], fun hnone => absurd hfailure (hnone failure),
      fun failure' hfailure' => ⟨rfl, ?_, ?_⟩⟩
    · obtain ⟨told', htold'⟩ := hfailure'.loadPath
      rw [htold']
    · cases hfailure' <;> exact nofun
  · have hnone : ∀ failure, ¬BreaksOff maxDepth config.source files path failure :=
      fun failure hfailure => hbreak ⟨failure, hfailure⟩
    obtain ⟨told, last, htold, hlast⟩ := exists_concludes hnone
    exact ⟨told, [last], by rw [htold], fun _ => ⟨last, rfl, hlast⟩,
      fun failure hfailure => absurd hfailure (hnone failure)⟩

/-- A file of lines that has too many digits breaks loading off. -/
theorem breaksOff_digits {t : Text} (hdigits : ∀ c ∈ t, CodePoint.isDigit c = true)
    (hhead : t.head? ≠ some ('0' : CodePoint)) (hlong : Text.maxIntegerDigits < t.length)
    (hread : files.read path = .ok (Utf8.written t)) :
    BreaksOff maxDepth .jsonl files path (.unreadable (.longInteger t.length)) := by
  have hne : t ≠ [] := by
    rintro rfl
    cases hlong
  have hentries : CaseSource.jsonl.entries files path =
      .ok ([] ++ [⟨lineLabel path.name 0, Utf8.written t⟩]) := by
    rw [CaseSource.entries, hread]
    exact congrArg Except.ok (lineEntries_digits hne hdigits path.name)
  exact .limit hentries (List.forall_mem_nil _)
    (CaseEntry.passesLimit_digits hdigits hhead hlong maxDepth (lineLabel path.name 0))

/-- An integer with one digit more than the reader takes. -/
def digitLine : Text := List.replicate 4301 '1'

/-- The files with `digitLine` in the place of `caseLines`. -/
def digitLineFiles : FileTree :=
  [(.ofNames [Text.ofString "cases.jsonl"], .file (Utf8.written digitLine))]

theorem breaksOff_digitLine : BreaksOff Json.usualDepth caseLines.source digitLineFiles
    ⟨0, [Text.ofString "cases.jsonl"]⟩ (.unreadable (.longInteger 4301)) := by
  have hlength : digitLine.length = 4301 := List.length_replicate
  have hdigits : ∀ c ∈ digitLine, CodePoint.isDigit c = true := by
    intro c hc
    obtain rfl := List.eq_of_mem_replicate hc
    decide
  have hread : digitLineFiles.read ⟨0, [Text.ofString "cases.jsonl"]⟩ =
      .ok (Utf8.written digitLine) := rfl
  have hlong : Text.maxIntegerDigits < digitLine.length := by
    rw [hlength]
    decide
  have hhead : digitLine.head? ≠ some ('0' : CodePoint) := by
    rw [digitLine, List.head?_replicate]
    decide
  rw [← hlength]
  exact breaksOff_digits hdigits hhead hlong hread

/-- The integer is met, and no event tells of it. -/
theorem loadFiles_concludes_digitLine :
    caseLines.source ≠ .samples ∧
    (caseLines.loadFiles digitLineFiles).outcome = .error (.unreadable (.longInteger 4301)) ∧
    ∃ told : List TestCase, (caseLines.loadFiles digitLineFiles).events =
      .loadingStarted "jsonl" (some "cases.jsonl") ::
        told.map fun case => .caseLoaded case.id case.truths.length := by
  have hsource : caseLines.source ≠ .samples := by decide
  obtain ⟨⟨told, ending, hevents, -, hbreak⟩, -⟩ :=
    @loadFiles_concludes Json.usualDepth caseLines digitLineFiles
      ⟨0, [Text.ofString "cases.jsonl"]⟩ hsource rfl
  obtain ⟨rfl, houtcome, -⟩ := hbreak _ breaksOff_digitLine
  rw [List.append_nil] at hevents
  exact ⟨hsource, houtcome, told, hevents⟩

/-- **A limit of the reader is no conclusion.** Loading a file of lines does not end with one event
for its outcome if the file is an integer of too many digits. -/
theorem not_concludes_digitLine :
    ¬∃ (told : List TestCase) (last : CaseEvent),
      (caseLines.loadFiles digitLineFiles).events =
        .loadingStarted "jsonl" (some "cases.jsonl") ::
          (told.map (fun case => .caseLoaded case.id case.truths.length) ++ [last]) ∧
      CaseLoading.Concludes "jsonl" (caseLines.loadFiles digitLineFiles).outcome last := by
  rintro ⟨-, last, -, hlast⟩
  obtain ⟨told, htold⟩ := breaksOff_digitLine.loadPath
  rw [loadFiles_eq_loadPath (by decide) rfl, htold] at hlast
  cases hlast

end CaseSourceConfig

end TypeBench
