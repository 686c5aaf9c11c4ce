import Mathlib.Algebra.Group.Nat.Defs
import Mathlib.Data.List.TakeWhile
import TypeBench.Report.Document

/-!
# Places of reports

The file of a report is named after a configuration and the day. The name of a configuration is any
text, and reading a path gives the slashes in it a meaning. So the file is a child of the directory
of reports, and has the name that is meant, if and only if there is no slash in the name of the
configuration and the year is 1000 or later.

## Main definitions

* `Date.eightDigits`: a date as `YYYYMMDD`.

## Main results

* `Text.exists_splitOnPoint_append`: only the last piece of a text goes on.
* `Date.compact_eq_eightDigits_iff`: which dates are written in this way in names of files.
* `EvaluationReport.path_of_notMem`: the place of a report without a slash in its name.
* `EvaluationReport.isChild_path_iff`: which reports are children of their directory.
-/

namespace TypeBench

/-! ### Pieces -/

namespace Text

variable {separator : CodePoint} {t s : Text}

/-- A text without separators is one piece. -/
theorem splitOnPoint_of_notMem (h : separator ∉ t) : t.splitOnPoint separator = [t] := by
  induction t with
  | nil => rfl
  | cons c rest ih =>
    obtain ⟨hc, hrest⟩ := not_or.1 (mt List.mem_cons.2 h)
    rw [splitOnPoint, if_neg (Ne.symm hc), ih hrest]

/-- What is added without separators goes on with the last piece. -/
theorem exists_splitOnPoint_append (t : Text) (h : separator ∉ s) :
    ∃ before last, separator ∉ last ∧
      splitOnPoint separator (t ++ s) = before ++ [last ++ s] := by
  induction t with
  | nil => exact ⟨[], [], List.not_mem_nil, splitOnPoint_of_notMem h⟩
  | cons c rest ih =>
    obtain ⟨before, last, hlast, hsplit⟩ := ih
    rw [List.cons_append, splitOnPoint, hsplit]
    by_cases hc : c = separator
    · exact ⟨[] :: before, last, hlast, if_pos hc⟩
    · rw [if_neg hc]
      cases before with
      | nil => exact ⟨[], c :: last, List.not_mem_cons_of_ne_of_not_mem (Ne.symm hc) hlast, rfl⟩
      | cons first others => exact ⟨(c :: first) :: others, last, hlast, rfl⟩

/-! ### Digits -/

theorem ofNat_eq_map (n : Nat) : ofNat n = (Nat.toDigits 10 n).map CodePoint.ofChar := by
  rw [ofNat, ofString, Nat.repr, String.toList_ofList]

theorem slash_notMem_ofNat (n : Nat) : ('/' : CodePoint) ∉ ofNat n := by
  rw [ofNat_eq_map, List.mem_map]
  rintro ⟨c, hc, hslash⟩
  have hdigit := Nat.isDigit_of_mem_toDigits (by decide) (by decide) hc
  have hval : c.toNat = 47 := congrArg Fin.val hslash
  rw [← Char.ofNat_toNat c, hval] at hdigit
  exact absurd hdigit (by decide)

theorem slash_notMem_zeroFilled (width n : Nat) : ('/' : CodePoint) ∉ zeroFilled width n := by
  rw [zeroFilled, List.mem_append]
  rintro (hzero | hdigit)
  · exact absurd (List.eq_of_mem_replicate hzero) (by decide)
  · exact slash_notMem_ofNat n hdigit

/-- A number has no more digits than a width if it is below the power of ten. -/
theorem length_ofNat_le_iff (n : Nat) {width : Nat} (h : 0 < width) :
    (ofNat n).length ≤ width ↔ n < 10 ^ width := by
  rw [ofNat_eq_map, List.length_map]
  exact Nat.length_toDigits_le_iff (by decide) h

theorem zeroFilled_eq_ofNat_iff {width n : Nat} :
    zeroFilled width n = ofNat n ↔ width ≤ (ofNat n).length := by
  rw [zeroFilled, List.append_left_eq_self, fill, List.replicate_eq_nil_iff, Nat.sub_eq_zero_iff_le]

end Text

namespace Date

/-- The date as `YYYYMMDD`. -/
def eightDigits (d : Date) : Text :=
  Text.zeroFilled 4 d.year ++ Text.zeroFilled 2 d.month ++ Text.zeroFilled 2 d.day

/-- The names of files have dates in this form from the year 1000 on. -/
theorem compact_eq_eightDigits_iff {d : Date} : d.compact = d.eightDigits ↔ 1000 ≤ d.year := by
  rw [compact, eightDigits, List.append_left_inj, List.append_left_inj, eq_comm,
    Text.zeroFilled_eq_ofNat_iff]
  have hlength := Text.length_ofNat_le_iff d.year (by decide : 0 < 3)
  omega

theorem slash_notMem_compact (d : Date) : ('/' : CodePoint) ∉ d.compact := by
  rw [compact, List.mem_append, List.mem_append, not_or, not_or]
  exact ⟨⟨Text.slash_notMem_ofNat _, Text.slash_notMem_zeroFilled _ _⟩,
    Text.slash_notMem_zeroFilled _ _⟩

end Date

/-! ### Places -/

namespace EvaluationReport

/-- What the name of a file has after the name of the configuration. -/
def ending (now : Timestamp) : Text := "_" ++ now.date.compact ++ ".json"

theorem fileName_eq (name : Text) (now : Timestamp) : fileName name now = name ++ ending now := by
  rw [fileName, ending, List.append_assoc, List.append_assoc, List.append_assoc]

theorem slash_notMem_ending (now : Timestamp) : ('/' : CodePoint) ∉ ending now := by
  rw [ending, List.mem_append, List.mem_append, not_or, not_or]
  exact ⟨⟨by decide, now.date.slash_notMem_compact⟩, by decide⟩

theorem length_fileName (name : Text) (now : Timestamp) : 5 < (fileName name now).length := by
  simp only [fileName, List.length_append]
  have : (Text.ofString ".json").length = 5 := rfl
  have : (Text.ofString "_").length = 1 := rfl
  omega

/-- The name of a file is no part that reading a path drops, and it does not lead upwards. -/
theorem fileName_ne {t : Text} (h : t.length ≤ 5) (name : Text) (now : Timestamp) :
    fileName name now ≠ t := fun heq => by
  have := length_fileName name now
  rw [heq] at this
  omega

theorem filter_fileName (name : Text) (now : Timestamp) :
    [fileName name now].filter (fun part => part ≠ [] && part ≠ Text.ofString ".") =
      [fileName name now] := by
  have hnil : fileName name now ≠ [] := fileName_ne (Nat.zero_le _) name now
  have hpoint : fileName name now ≠ Text.ofString "." := fileName_ne (by decide) name now
  rw [List.filter_cons_of_pos (by simp [hnil, hpoint]), List.filter_nil]

variable {name : Text}

/-- The file of a report bears what follows the last slash in the name of the configuration. -/
theorem exists_path_eq (directory : Path) (name : Text) (now : Timestamp) :
    ∃ (slashes : Nat) (names : List Text) (last : Text), ('/' : CodePoint) ∉ last ∧
      path directory name now = ⟨slashes, names ++ [fileName last now]⟩ := by
  obtain ⟨before, last, hlast, hsplit⟩ :=
    Text.exists_splitOnPoint_append name (slash_notMem_ending now)
  rw [← fileName_eq, ← fileName_eq] at hsplit
  rw [path, Path.join, Path.ofText, hsplit, List.filter_append, filter_fileName]
  split
  · exact ⟨_, _, last, hlast, by rw [← List.append_assoc]⟩
  · exact ⟨_, _, last, hlast, rfl⟩

/-- Without a slash in its name, a report is a child of its directory. -/
theorem path_of_notMem (directory : Path) (h : ('/' : CodePoint) ∉ name) (now : Timestamp) :
    path directory name now = ⟨directory.slashes, directory.names ++ [fileName name now]⟩ := by
  have hslash : ('/' : CodePoint) ∉ fileName name now := by
    rw [fileName_eq, List.mem_append, not_or]
    exact ⟨h, slash_notMem_ending now⟩
  have hroot : (fileName name now).takeWhile (fun c : CodePoint => c = '/') = [] := by
    refine List.takeWhile_eq_nil_iff.2 fun hpos hfirst => hslash ?_
    rw [← of_decide_eq_true hfirst]
    exact List.getElem_mem hpos
  rw [path, Path.ofText, Text.splitOnPoint_of_notMem hslash, filter_fileName, hroot]
  rfl

/-- A report is a child of its directory, and its file has the name of the configuration and the
eight digits of the day, if and only if there is no slash in the name and the year is 1000 or
later. -/
theorem isChild_path_iff (directory : Path) (name : Text) (now : Timestamp) :
    ((path directory name now).parent = directory ∧
        (path directory name now).name = name ++ "_" ++ now.date.eightDigits ++ ".json") ↔
      ('/' : CodePoint) ∉ name ∧ 1000 ≤ now.date.year := by
  rw [← Date.compact_eq_eightDigits_iff]
  constructor
  · rintro ⟨-, hname⟩
    obtain ⟨slashes, names, last, hlast, hpath⟩ := exists_path_eq directory name now
    have hfile : fileName last now = name ++ "_" ++ now.date.eightDigits ++ ".json" := by
      rw [← hname, hpath, Path.name, List.getLast?_concat, Option.getD_some]
    have hslash : ('/' : CodePoint) ∉ name := fun hmem => by
      have hlong : ('/' : CodePoint) ∈ fileName last now := by
        rw [hfile]
        exact List.mem_append_left _ (List.mem_append_left _ (List.mem_append_left _ hmem))
      rw [fileName_eq, List.mem_append] at hlong
      exact hlong.elim hlast (slash_notMem_ending now)
    refine ⟨hslash, ?_⟩
    rw [path_of_notMem directory hslash, Path.name, List.getLast?_concat, Option.getD_some,
      fileName, List.append_left_inj, List.append_right_inj] at hname
    exact hname
  · rintro ⟨hslash, hdigits⟩
    rw [path_of_notMem directory hslash, ← hdigits]
    refine ⟨?_, ?_⟩
    · rw [Path.parent, List.dropLast_concat]
    · rw [Path.name, List.getLast?_concat, Option.getD_some, fileName]

end EvaluationReport

end TypeBench
