import Mathlib.Data.List.Forall2
import TypeBench.Proofs.Text.Order
import TypeBench.TestCase.Loading

/-!
# Entries of a source

A file of lines is cut at its line ends: a line feed, a carriage return, or both together. Its lines
are numbered from one, and the blank ones count but are no entries. The entries of a directory are
its files of test cases, each name once and in rising order.

## Main definitions

* `IsLines`: the lines of a byte sequence.
* `IsNumbered`: the entries of numbered lines.
* `IsCaseDirectory`: the entries of a directory.
* `CaseSource.HasEntries`: the entries of a source.

## Main results

* `isLines_iff`: a byte sequence has its lines and no others.
* `isNumbered_lineEntries`: the entries of a file are its lines that are not blank, with their
  numbers.
* `CaseSource.hasEntries_of_entries`: what is read of a source are its entries.
-/

namespace TypeBench

/-! ### Lines -/

/-- Whether some bytes end a line before some others: a carriage return does not do so on its own
before a line feed. -/
inductive IsLineEnding : Bytes → Bytes → Prop
  | feed (rest : Bytes) : IsLineEnding [10] rest
  | carriage {rest : Bytes} (hrest : rest.head? ≠ some 10) : IsLineEnding [13] rest
  | both (rest : Bytes) : IsLineEnding [13, 10] rest

/-- The lines of a byte sequence; the last one needs no end. -/
inductive IsLines : Bytes → List Bytes → Prop
  | nil : IsLines [] []
  | last {line : Bytes} (hne : line ≠ []) (hline : ∀ b ∈ line, isLineEnd b = false) :
      IsLines line [line]
  | ended {line ending rest : Bytes} {lines : List Bytes} (hline : ∀ b ∈ line, isLineEnd b = false)
      (hending : IsLineEnding ending rest) (hrest : IsLines rest lines) :
      IsLines (line ++ (ending ++ rest)) (line :: lines)

/-- A byte that ends no line is read into the current one. -/
theorem linesFrom_cons {b : UInt8} (h : isLineEnd b = false) (read rest : Bytes) :
    linesFrom read (b :: rest) = linesFrom (b :: read) rest := by
  rw [linesFrom]
  · rw [h, if_neg Bool.false_ne_true]
  · rintro more rfl
    cases h

theorem linesFrom_append {line : Bytes} (h : ∀ b ∈ line, isLineEnd b = false) (read rest : Bytes) :
    linesFrom read (line ++ rest) = linesFrom (line.reverse ++ read) rest := by
  induction line generalizing read with
  | nil => rfl
  | cons b line ih =>
    obtain ⟨hb, hline⟩ := List.forall_mem_cons.1 h
    rw [List.cons_append, linesFrom_cons hb, ih hline, List.reverse_cons, List.append_assoc]
    rfl

/-- The end of a line ends what was read of it. -/
theorem linesFrom_ending {ending rest : Bytes} (h : IsLineEnding ending rest) (read : Bytes) :
    linesFrom read (ending ++ rest) = read.reverse :: linesOf rest := by
  cases h with
  | feed => rfl
  | both => rfl
  | carriage hrest =>
    rw [List.cons_append, linesFrom]
    · rfl
    · rintro more - rfl
      exact hrest rfl

theorem isLines_linesFrom (read bytes : Bytes) (hread : ∀ b ∈ read, isLineEnd b = false) :
    IsLines (read.reverse ++ bytes) (linesFrom read bytes) := by
  have hline {read : Bytes} (h : ∀ b ∈ read, isLineEnd b = false) :
      ∀ b ∈ read.reverse, isLineEnd b = false := by simpa using h
  induction read, bytes using linesFrom.induct with
  | case1 => exact .nil
  | case2 read hne =>
    rw [linesFrom, if_neg hne, List.append_nil]
    exact .last (by simpa using hne) (hline hread)
  | case3 read rest ih =>
    rw [linesFrom]
    exact .ended (hline hread) (.both rest) (ih (by simp))
  | case4 read b rest hpair hb ih =>
    have hending : IsLineEnding [b] rest := by
      simp only [isLineEnd, Bool.or_eq_true, decide_eq_true_eq] at hb
      obtain rfl | rfl := hb
      · exact .feed rest
      · refine .carriage fun hhead => ?_
        obtain ⟨more, rfl⟩ := List.head?_eq_some_iff.1 hhead
        exact hpair more rfl rfl
    have hlines := linesFrom_ending hending read
    rw [List.singleton_append] at hlines
    rw [hlines]
    exact .ended (hline hread) hending (ih (by simp))
  | case5 read b rest _ hb ih =>
    rw [Bool.not_eq_true] at hb
    rw [linesFrom_cons hb]
    simpa using ih (List.forall_mem_cons.2 ⟨hb, hread⟩)

/-- A byte sequence has its lines and no others. -/
theorem isLines_iff {bytes : Bytes} {lines : List Bytes} :
    IsLines bytes lines ↔ lines = linesOf bytes := by
  constructor
  · intro h
    induction h with
    | nil => rfl
    | @last line hne hline =>
      have h := linesFrom_append hline [] []
      rw [List.append_nil, List.append_nil] at h
      rw [linesOf, h, linesFrom, if_neg (by simpa using hne), List.reverse_reverse]
    | ended hline hending _ ih =>
      rw [linesOf, linesFrom_append hline, linesFrom_ending hending, ih, List.append_nil,
        List.reverse_reverse]
  · rintro rfl
    exact isLines_linesFrom [] bytes (by simp)

/-! ### Numbered lines -/

/-- The entries of a file's lines from a number on: a line that is not blank is one, and its label
is the name of the file with the number of the line. -/
inductive IsNumbered (file : Text) : Nat → List Bytes → List CaseEntry → Prop
  | nil (n : Nat) : IsNumbered file n [] []
  | blank {n : Nat} {line : Bytes} {lines : List Bytes} {entries : List CaseEntry}
      (hline : ∀ b ∈ line, isBlankByte b = true) (hrest : IsNumbered file (n + 1) lines entries) :
      IsNumbered file n (line :: lines) entries
  | entry {n : Nat} {line : Bytes} {lines : List Bytes} {entries : List CaseEntry}
      (hline : ∃ b ∈ line, isBlankByte b = false) (hrest : IsNumbered file (n + 1) lines entries) :
      IsNumbered file n (line :: lines) (⟨file ++ ":" ++ Text.ofNat n, line⟩ :: entries)

theorem isNumbered_zipIdx (file : Text) (n : Nat) (lines : List Bytes) :
    IsNumbered file (n + 1) lines
      (((lines.zipIdx n).filter fun (line, _) => !line.all isBlankByte).map fun (line, index) =>
        ⟨lineLabel file index, line⟩) := by
  induction lines generalizing n with
  | nil => exact .nil _
  | cons line lines ih =>
    rw [List.zipIdx_cons]
    by_cases hblank : line.all isBlankByte = true
    · rw [List.filter_cons_of_neg (by simp [hblank])]
      exact .blank (List.all_eq_true.1 hblank) (ih (n + 1))
    · rw [List.filter_cons_of_pos (by simp [hblank]), List.map_cons]
      rw [Bool.not_eq_true, List.all_eq_false] at hblank
      exact .entry (by simpa using hblank) (ih (n + 1))

/-- The entries of a file of lines are those of its lines, numbered from one. -/
theorem isNumbered_lineEntries (file : Text) (bytes : Bytes) :
    IsNumbered file 1 (linesOf bytes) (lineEntries file bytes) :=
  isNumbered_zipIdx file 0 (linesOf bytes)

/-! ### Directories -/

/-- The entries of a directory: its names of case files in rising order, each with the bytes of its
file. -/
structure IsCaseDirectory (files : FileTree) (path : Path) (entries : List CaseEntry) : Prop where
  mem_iff : ∃ place, files.lookUp path = .ok (place, .directory) ∧ ∀ name,
    name ∈ entries.map (·.label) ↔
      (∃ entry ∈ files, FileTree.childName? place entry = some name) ∧
        ∃ stem, name = stem ++ caseFileEnding
  rising : entries.Pairwise fun a b => a.label.le b.label = true ∧ a.label ≠ b.label
  bytes_eq : ∀ entry ∈ entries, files.read (path.join ⟨0, [entry.label]⟩) = .ok entry.bytes

theorem forall₂_of_mapM_eq_ok {ε α β : Type} {f : α → Except ε β} {xs : List α} {ys : List β}
    (h : xs.mapM f = .ok ys) : List.Forall₂ (fun x y => f x = .ok y) xs ys := by
  induction xs generalizing ys with
  | nil =>
    obtain rfl := Except.ok.inj h
    exact .nil
  | cons x xs ih =>
    rw [List.mapM_cons] at h
    cases hx : f x with
    | error e =>
      rw [hx] at h
      cases h
    | ok y =>
      cases hxs : xs.mapM f with
      | error e =>
        rw [hx, hxs] at h
        cases h
      | ok more =>
        rw [hx, hxs] at h
        obtain rfl := Except.ok.inj h
        exact .cons hx (ih hxs)

theorem FileTree.lookUp_of_isDirectory {files : FileTree} {path : Path}
    (h : files.isDirectory path = .ok true) :
    ∃ place, files.lookUp path = .ok (place, .directory) := by
  rw [isDirectory] at h
  split at h
  · next place hplace => exact ⟨place, hplace⟩
  all_goals cases h

theorem FileTree.listing_eq {files : FileTree} {path : Path} {place : FilePlace}
    (h : files.lookUp path = .ok (place, .directory)) : files.listing path =
      .ok ((files.filterMap (childName? place)).eraseDups.mergeSort Text.le) := by
  rw [listing, h]
  rfl

/-- The names of the case files in a directory. -/
def FileTree.caseNames (files : FileTree) (place : FilePlace) : List Text :=
  ((files.filterMap (childName? place)).eraseDups.mergeSort Text.le).filter
    caseFileEnding.isSuffixOf

theorem FileTree.mem_caseNames_iff {files : FileTree} {place : FilePlace} {name : Text} :
    name ∈ files.caseNames place ↔ (∃ entry ∈ files, childName? place entry = some name) ∧
      ∃ stem, name = stem ++ caseFileEnding := by
  rw [caseNames, List.mem_filter, List.mem_mergeSort, List.mem_eraseDups, List.mem_filterMap,
    List.isSuffixOf_iff_suffix]
  exact and_congr_right fun _ => exists_congr fun _ => eq_comm

/-- The names of a directory are different and in rising order. -/
theorem FileTree.rising_caseNames (files : FileTree) (place : FilePlace) :
    (files.caseNames place).Pairwise fun a b => a.le b = true ∧ a ≠ b := by
  have hnodup : ((files.filterMap (childName? place)).eraseDups.mergeSort Text.le).Nodup :=
    (List.mergeSort_perm _ _).nodup_iff.2 (nodup_eraseDups _)
  exact ((Text.pairwise_mergeSort _).and hnodup).filter _

/-- An entry of a directory has the bytes of the file under its label. -/
theorem forall₂_of_directoryEntries {files : FileTree} {path : Path} {entries : List CaseEntry}
    (h : directoryEntries files path = .ok entries) :
    ∃ place, files.lookUp path = .ok (place, .directory) ∧
      List.Forall₂ (fun name (entry : CaseEntry) => name = entry.label ∧
        files.read (path.join ⟨0, [entry.label]⟩) = .ok entry.bytes)
        (files.caseNames place) entries := by
  rw [directoryEntries] at h
  cases hdirectory : files.isDirectory path with
  | error fault =>
    rw [hdirectory] at h
    cases h
  | ok isDirectory =>
    rw [hdirectory] at h
    cases isDirectory with
    | false => cases h
    | true =>
      obtain ⟨place, hplace⟩ := FileTree.lookUp_of_isDirectory hdirectory
      rw [FileTree.listing_eq hplace] at h
      refine ⟨place, hplace, (forall₂_of_mapM_eq_ok h).imp fun name entry hentry => ?_⟩
      cases hread : files.read (path.join ⟨0, [name]⟩) with
      | error fault =>
        rw [hread] at hentry
        cases hentry
      | ok bytes =>
        rw [hread] at hentry
        obtain rfl := Except.ok.inj hentry
        exact ⟨rfl, hread⟩

theorem isCaseDirectory_of_directoryEntries {files : FileTree} {path : Path}
    {entries : List CaseEntry} (h : directoryEntries files path = .ok entries) :
    IsCaseDirectory files path entries := by
  obtain ⟨place, hplace, hentries⟩ := forall₂_of_directoryEntries h
  have hlabels : files.caseNames place = entries.map (·.label) := by
    rw [← List.forall₂_eq_eq_eq, List.forall₂_map_right_iff]
    exact hentries.imp fun _ _ h => h.1
  refine ⟨⟨place, hplace, fun name => ?_⟩, ?_, ?_⟩
  · rw [← hlabels, FileTree.mem_caseNames_iff]
  · have hrising := files.rising_caseNames place
    rw [hlabels] at hrising
    exact List.pairwise_map.1 hrising
  · rw [hlabels, List.forall₂_map_left_iff, List.forall₂_same] at hentries
    exact fun entry hentry => (hentries entry hentry).2

/-! ### Sources -/

/-- The entries of a source at a path. -/
inductive CaseSource.HasEntries (files : FileTree) (path : Path) :
    CaseSource → List CaseEntry → Prop
  | jsonl {bytes : Bytes} {lines : List Bytes} {entries : List CaseEntry}
      (hread : files.read path = .ok bytes) (hlines : IsLines bytes lines)
      (hentries : IsNumbered path.name 1 lines entries) : HasEntries files path .jsonl entries
  | directory {entries : List CaseEntry} (hentries : IsCaseDirectory files path entries) :
      HasEntries files path .directory entries

/-- What is read of a source are its entries. -/
theorem CaseSource.hasEntries_of_entries {source : CaseSource} {files : FileTree} {path : Path}
    {entries : List CaseEntry} (hsource : source ≠ .samples)
    (h : source.entries files path = .ok entries) : source.HasEntries files path entries := by
  cases source with
  | samples => exact absurd rfl hsource
  | jsonl =>
    rw [CaseSource.entries] at h
    cases hread : files.read path with
    | error fault =>
      rw [hread] at h
      cases h
    | ok bytes =>
      rw [hread] at h
      obtain rfl := Except.ok.inj h
      exact .jsonl hread (isLines_iff.2 rfl) (isNumbered_lineEntries path.name bytes)
  | directory => exact .directory (isCaseDirectory_of_directoryEntries h)

end TypeBench
