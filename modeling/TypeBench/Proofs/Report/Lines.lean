import TypeBench.Proofs.Value.Shown
import TypeBench.Report.Console
import TypeBench.Report.Document

/-!
# Lines on a console

The lines about results are made of words, numbers, the names of approaches and the labels of types.
If these have no lone surrogates, neither have the lines, with their styles or without, and so they
can be printed.

## Main definitions

* `EvaluationResult.IsPrintable`: a result whose names and labels have no lone surrogates.

## Main results

* `Console.hasSurrogate_comparison`, `Console.hasSurrogate_typeMetrics`,
  `Console.hasSurrogate_reportLocation`: the lines about results and reports.
* `Console.hasSurrogate_printed`: a line as it is printed.
-/

namespace TypeBench

/-- A result whose names and labels have no lone surrogates. -/
structure EvaluationResult.IsPrintable (r : EvaluationResult Binary64) : Prop where
  approach : r.approach.hasSurrogate = false
  labels : ∀ label ∈ Named.names (r.precisions ++ r.recalls), label.hasSurrogate = false
  additional : ∀ key ∈ Named.names r.additional, key.hasSurrogate = false

/-! ### Comparisons -/

/-- A search for a preferred row finds one of the rows. -/
theorem ComparisonRow.mem_of_first? {R : Type} [Quantity R]
    {better : ComparisonRow R → ComparisonRow R → Bool} {rows : List (ComparisonRow R)}
    {row : ComparisonRow R} (h : first? better rows = some row) : row ∈ rows := by
  have hfold (kept : Option (ComparisonRow R))
      (hkept : rows.foldl (prefer better) kept = some row) :
      kept = some row ∨ row ∈ rows := by
    clear h
    induction rows generalizing kept with
    | nil => exact .inl hkept
    | cons first rest ih =>
      rcases ih _ hkept with hfirst | hrest
      · cases kept with
        | none => exact .inr (Option.some.inj hfirst ▸ List.mem_cons_self)
        | some other =>
          rw [prefer] at hfirst
          split at hfirst
          · exact .inr (Option.some.inj hfirst ▸ List.mem_cons_self)
          · exact .inl hfirst
      · exact .inr (List.mem_cons_of_mem _ hrest)
  rcases hfold none h with hnone | hmem
  · cases hnone
  · exact hmem

namespace Console

/-! ### Parts of lines -/

@[simp] theorem hasSurrogate_rule (width : Nat) : (rule width).hasSurrogate = false :=
  Text.hasSurrogate_fill_ofChar width '─'

@[simp] theorem hasSurrogate_bar (x : Binary64) : (bar x).hasSurrogate = false := by
  simp [bar]

@[simp] theorem hasSurrogate_milliseconds (seconds : Binary64) :
    (milliseconds seconds).hasSurrogate = false := by
  simp [milliseconds]

theorem hasSurrogate_title {colour : Style} {t : Text} (h : t.hasSurrogate = false) :
    ∀ line ∈ title colour t, line.hasSurrogate = false := by
  simp [title, h]

/-! ### Comparisons -/

section Comparison

variable {rows : List (ComparisonRow Binary64)}

theorem hasSurrogate_summaryLines (hrows : ∀ row ∈ rows, row.approach.hasSurrogate = false) :
    ∀ line ∈ summaryLines (ResultComparison.ofRows rows).summary, line.hasSurrogate = false := by
  rw [summaryLines]
  split
  · simp
  · rename_i parts hparts
    simp only [ResultComparison.ofRows, summaryParts] at hparts
    split at hparts
    · rename_i best fastest hbest hfastest
      obtain ⟨row, hrow, rfl⟩ := Option.map_eq_some_iff.1 hbest
      obtain ⟨row', hrow', rfl⟩ := Option.map_eq_some_iff.1 hfastest
      have happroach := hrows row (ComparisonRow.mem_of_first? hrow)
      have happroach' := hrows row' (ComparisonRow.mem_of_first? hrow')
      obtain rfl := Option.some.inj hparts
      simp [labelledLine, happroach, happroach']
    · cases hparts

theorem hasSurrogate_tableLines (hrows : ∀ row ∈ rows, row.approach.hasSurrogate = false) :
    ∀ line ∈ tableLines rows, line.hasSurrogate = false := by
  have hrow (width : Nat) : ∀ row ∈ rows, (rowLine width row).hasSurrogate = false := by
    intro row hmem
    simp [rowLine, hrows row hmem]
  have hrules (width : Nat) : (Text.join "  " [rule width, rule 8, rule 9, rule 10,
      rule barWidth]).hasSurrogate = false :=
    Text.hasSurrogate_join (Text.hasSurrogate_ofString _) (by simp)
  rw [tableLines]
  split
  · simp
  · simp only [List.forall_mem_append, List.forall_mem_cons, List.forall_mem_map, blankLine]
    refine ⟨⟨rfl, ?_, ?_, nofun⟩, hrow _⟩
    · simp
    · simp [hrules]

theorem hasSurrogate_failedLines {failed : List Text}
    (h : ∀ name ∈ failed, name.hasSurrogate = false) :
    ∀ line ∈ failedLines failed, line.hasSurrogate = false := by
  have hjoin := Text.hasSurrogate_join (Text.hasSurrogate_ofString ", ") h
  rw [failedLines]
  split
  · simp
  · simp [blankLine, hjoin]

/-- The lines about a comparison, if the names in it have no lone surrogates. -/
theorem hasSurrogate_comparison {results : Named (EvaluationResult Binary64)} {failed : List Text}
    (hresults : ∀ name ∈ Named.names results, name.hasSurrogate = false)
    (hfailed : ∀ name ∈ failed, name.hasSurrogate = false) :
    ∀ line ∈ comparison (.ofResults results) failed, line.hasSurrogate = false := by
  have hrows : ∀ row ∈ results.map fun entry => ComparisonRow.ofResult entry.1 entry.2,
      row.approach.hasSurrogate = false := by
    intro row hrow
    obtain ⟨entry, hmem, rfl⟩ := List.mem_map.1 hrow
    exact hresults entry.1 (List.mem_map_of_mem hmem)
  have hranked : ∀ row ∈ (ResultComparison.ofResults results).rows,
      row.approach.hasSurrogate = false :=
    fun row hrow => hrows row ((List.mergeSort_perm _ _).mem_iff.1 hrow)
  simp only [comparison, List.forall_mem_append, List.forall_mem_singleton]
  exact ⟨⟨⟨⟨⟨rfl, hasSurrogate_title (Text.hasSurrogate_ofString _)⟩, rfl⟩,
    hasSurrogate_summaryLines hrows⟩, hasSurrogate_tableLines hranked⟩,
    hasSurrogate_failedLines hfailed⟩

end Comparison

/-! ### Metrics and reports -/

@[simp] theorem hasSurrogate_shareCell (width : Nat) (x : Binary64) :
    (shareCell width x).hasSurrogate = false := by
  simp [shareCell]

theorem hasSurrogate_labelLines (result : EvaluationResult Binary64) {labels : List Text}
    (h : ∀ label ∈ labels, label.hasSurrogate = false) :
    ∀ line ∈ labelLines result labels, line.hasSurrogate = false := by
  have hlabel (width : Nat) : ∀ label ∈ labels,
      (labelLine result width label).hasSurrogate = false := by
    intro label hmem
    simp [labelLine, h label hmem]
  have hrules (width : Nat) : (Text.join "  " [rule width, rule 9, rule 8,
      rule 8]).hasSurrogate = false :=
    Text.hasSurrogate_join (Text.hasSurrogate_ofString _) (by simp)
  simp only [labelLines, List.forall_mem_append, List.forall_mem_cons, List.forall_mem_map,
    blankLine]
  refine ⟨⟨rfl, ?_, ?_, nofun⟩, hlabel _⟩
  · simp
  · simp [hrules]

theorem hasSurrogate_additionalLines {additional : LabelMap Binary64}
    (h : ∀ key ∈ Named.names additional, key.hasSurrogate = false) :
    ∀ line ∈ additionalLines additional, line.hasSurrogate = false := by
  rw [additionalLines]
  split
  · simp
  · refine List.forall_mem_cons.2 ⟨rfl, List.forall_mem_map.2 fun entry hentry => ?_⟩
    simp [h entry.1 (List.mem_map_of_mem hentry)]

/-- The lines about the metrics of a result. -/
theorem hasSurrogate_typeMetrics {result : EvaluationResult Binary64} (h : result.IsPrintable) :
    ∀ line ∈ typeMetrics result, line.hasSurrogate = false := by
  have hlabels : ∀ label ∈ (Named.names (result.precisions ++ result.recalls)).eraseDups,
      label.hasSurrogate = false := fun label hlabel => h.labels label (List.mem_eraseDups.1 hlabel)
  have hmetrics : ∀ line ∈ (if (Named.names (result.precisions ++ result.recalls)).eraseDups.isEmpty
        then ["  " ++ Text.styled [.yellow] "No scored predictions."]
        else labelLines result (Named.names (result.precisions ++ result.recalls)).eraseDups ++
          additionalLines result.additional), line.hasSurrogate = false := by
    split
    · simp
    · exact List.forall_mem_append.2 ⟨hasSurrogate_labelLines result hlabels,
        hasSurrogate_additionalLines h.additional⟩
  simp only [typeMetrics, List.forall_mem_append, List.forall_mem_singleton]
  exact ⟨⟨⟨rfl, hasSurrogate_title h.approach⟩, by simp [accuracyLine]⟩, hmetrics⟩

theorem hasSurrogate_reportLocation {path : Path}
    (h : ∀ name ∈ path.names, name.hasSurrogate = false) :
    ∀ line ∈ reportLocation path, line.hasSurrogate = false := by
  simp [reportLocation, blankLine, Path.hasSurrogate_text h]

/-- A line as it is printed. -/
theorem hasSurrogate_printed (hasStyles : Bool) {line : Text} (h : line.hasSurrogate = false) :
    (printed hasStyles line).hasSurrogate = false := by
  cases hasStyles with
  | true => simp [printed, h]
  | false => simp [printed, Text.hasSurrogate_withoutStyles h]

end Console

/-- The place of a report, if neither its directory nor its name has a lone surrogate. -/
theorem EvaluationReport.hasSurrogate_path {directory : Path} {name : Text}
    (hdirectory : ∀ part ∈ directory.names, part.hasSurrogate = false)
    (hname : name.hasSurrogate = false) (now : Timestamp) :
    ∀ part ∈ (path directory name now).names, part.hasSurrogate = false := by
  have hfile : ∀ part ∈ (Path.ofText (fileName name now)).names, part.hasSurrogate = false :=
    Path.hasSurrogate_names_ofText (by simp [fileName, hname])
  rw [path, Path.join]
  split
  · exact List.forall_mem_append.2 ⟨hdirectory, hfile⟩
  · exact hfile

end TypeBench
