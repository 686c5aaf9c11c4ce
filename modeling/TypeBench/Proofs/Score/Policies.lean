import TypeBench.Proofs.Score.Bounds
import TypeBench.Proofs.Score.Means

/-!
# Scores under both policies

The policies differ in the predictions without an entry: under the strict policy they count, as
wrong ones. With exact numbers a result under the strict policy is therefore nowhere higher than the
one of the same matching under the lenient policy. Precisions of labels fall, and with them the
harmonic means; recalls and leftovers do not depend on the policy. If no prediction is left over
both results are the same, and only then, or if nothing is correct, they have the same accuracy.

## Main definitions

* `EvaluationResult.IsStricter`: a strict result beside the lenient one of the same matching.

## Main results

* `LabelMap.lookup_shares_append`, `LabelMap.valueOf_shares_append_le`: shares of a longer list.
* `MatchSet.isStricter_scores`: the scores of a matching under both policies.
* `EvaluationResult.ofPredictions_isStricter`: the results over source units and over test cases.
-/

namespace TypeBench

/-! ### Shares of a longer list -/

namespace LabelMap

variable {correct labels : List Text}

/-- The share of a label falls when the list grows, and the label stays. -/
theorem lookup_shares_append (h : ∀ label, correct.count label ≤ labels.count label)
    (more : List Text) {label : Text} {share : ℚ}
    (hshare : (shares ℚ correct labels).lookup label = some share) :
    ∃ less ≤ share, (shares ℚ correct (labels ++ more)).lookup label = some less := by
  rw [lookup_shares] at hshare
  split_ifs at hshare with hmem
  obtain rfl := Option.some.inj hshare
  refine ⟨_, ?_, (lookup_shares ..).trans (if_pos (List.mem_append_left more hmem))⟩
  rw [List.count_append]
  exact Exact.ratio_le_ratio (h label) (Nat.le_add_right _ _)

/-- A label that only the longer list has is nowhere correct. -/
theorem lookup_shares_append_of_notMem (h : ∀ label, correct.count label ≤ labels.count label)
    {more : List Text} {label : Text} (hmem : label ∈ more) (hnotMem : label ∉ labels) :
    (shares ℚ correct (labels ++ more)).lookup label = some 0 := by
  have hcorrect : correct.count label = 0 :=
    Nat.le_zero.1 ((h label).trans_eq (List.count_eq_zero.2 hnotMem))
  rw [lookup_shares, if_pos (List.mem_append_right labels hmem), hcorrect, Exact.ratio_eq,
    Nat.cast_zero, zero_div]

theorem valueOf_shares_append_le (h : ∀ label, correct.count label ≤ labels.count label)
    (more : List Text) (label : Text) :
    (shares ℚ correct (labels ++ more)).valueOf label ≤
      (shares ℚ correct labels).valueOf label := by
  rw [valueOf_shares, valueOf_shares, List.count_append, ← Exact.ratio_eq, ← Exact.ratio_eq]
  exact Exact.ratio_le_ratio (h label) (Nat.le_add_right _ _)

end LabelMap

/-! ### Both policies -/

/-- A result under the strict policy, beside the lenient one of the same matching. -/
structure EvaluationResult.IsStricter (strict lenient : EvaluationResult ℚ) (m : MatchSet) :
    Prop where
  correct_eq : strict.correct = lenient.correct
  recalls_eq : strict.recalls = lenient.recalls
  additional_eq : strict.additional = lenient.additional
  precision_le : ∀ label precision, lenient.precisions.lookup label = some precision →
    ∃ less ≤ precision, strict.precisions.lookup label = some less
  /-- The labels that are added are those that only predictions without an entry have. -/
  added_iff : ∀ label,
    label ∈ Named.names strict.precisions ∧ label ∉ Named.names lenient.precisions ↔
      label ∈ m.unmatchedPredictions.map (·.label) ∧ label ∉ m.found.map (·.prediction.label)
  added_eq : ∀ label ∈ Named.names strict.precisions, label ∉ Named.names lenient.precisions →
    strict.precisions.lookup label = some 0
  mean_le : ∀ label, strict.means.valueOf label ≤ lenient.means.valueOf label
  accuracy_le : strict.accuracy ≤ lenient.accuracy
  accuracy_eq_iff :
    strict.accuracy = lenient.accuracy ↔ m.unmatchedPredictions = [] ∨ strict.correct = 0
  eq_of_unmatched : m.unmatchedPredictions = [] → strict = lenient

namespace MatchSet

variable (m : MatchSet)

theorem scoredLabels_lenient : m.scoredLabels .lenient = m.found.map (·.prediction.label) :=
  List.append_nil _

/-- Of the policies only the strict one counts what is left over. -/
theorem scoredLabels_strict :
    m.scoredLabels .strict = m.scoredLabels .lenient ++ m.unmatchedPredictions.map (·.label) := by
  rw [scoredLabels_lenient]
  rfl

theorem scoredCount_strict :
    m.scoredCount .strict = m.scoredCount .lenient + m.unmatchedPredictions.length :=
  rfl

variable {m}

/-- If no prediction is left over, the policies do not differ. -/
theorem scores_strict_of_unmatched (h : m.unmatchedPredictions = []) (name : Text)
    (predictions : List TypePrediction) (truths : List GroundTruth) (time : ℚ) :
    m.scores .strict name predictions truths time =
      m.scores .lenient name predictions truths time := by
  have hlabels : m.scoredLabels .strict = m.scoredLabels .lenient := by
    rw [scoredLabels_strict, h, List.map_nil, List.append_nil]
  have hcount : m.scoredCount .strict = m.scoredCount .lenient := by
    rw [scoredCount_strict, h, List.length_nil, Nat.add_zero]
  rw [scores, scores, accuracy, accuracy, precisions, precisions, hlabels, hcount]

variable (m)

/-- The scores of a matching under both policies. -/
theorem isStricter_scores (name : Text) (predictions : List TypePrediction)
    (truths : List GroundTruth) (time : ℚ) :
    (m.scores .strict name predictions truths time).IsStricter
      (m.scores .lenient name predictions truths time) m := by
  have hcorrect := m.count_correctLabels_le_scored .lenient
  have hprecisions : m.precisions ℚ .strict = LabelMap.shares ℚ m.correctLabels
      (m.scoredLabels .lenient ++ m.unmatchedPredictions.map (·.label)) := by
    rw [precisions_eq, scoredLabels_strict]
  have hadded (label : Text) :
      label ∈ Named.names (m.precisions ℚ .strict) ∧
          label ∉ Named.names (m.precisions ℚ .lenient) ↔
        label ∈ m.unmatchedPredictions.map (·.label) ∧
          label ∉ m.found.map (·.prediction.label) := by
    rw [hprecisions, precisions_eq, LabelMap.mem_names_shares, LabelMap.mem_names_shares,
      scoredLabels_lenient, List.mem_append]
    exact and_congr_left fun hnotMem => or_iff_right hnotMem
  refine {
    correct_eq := rfl
    recalls_eq := rfl
    additional_eq := rfl
    precision_le := fun label precision hprecision => ?_
    added_iff := hadded
    added_eq := fun label hmem hnotMem => ?_
    mean_le := fun label => ?_
    accuracy_le := ?_
    accuracy_eq_iff := ?_
    eq_of_unmatched := fun h => scores_strict_of_unmatched h name predictions truths time }
  · change ∃ less ≤ precision, (m.precisions ℚ .strict).lookup label = some less
    change (m.precisions ℚ .lenient).lookup label = some precision at hprecision
    rw [precisions_eq] at hprecision
    rw [hprecisions]
    exact LabelMap.lookup_shares_append hcorrect _ hprecision
  · change (m.precisions ℚ .strict).lookup label = some 0
    obtain ⟨hunmatched, hfound⟩ := (hadded label).1 ⟨hmem, hnotMem⟩
    rw [← scoredLabels_lenient] at hfound
    rw [hprecisions]
    exact LabelMap.lookup_shares_append_of_notMem hcorrect hunmatched hfound
  · change (LabelMap.harmonicMean (m.precisions ℚ .strict) (m.recalls ℚ truths)).valueOf label ≤
      (LabelMap.harmonicMean (m.precisions ℚ .lenient) (m.recalls ℚ truths)).valueOf label
    have hle :
        (m.precisions ℚ .strict).valueOf label ≤ (m.precisions ℚ .lenient).valueOf label := by
      rw [hprecisions, precisions_eq]
      exact LabelMap.valueOf_shares_append_le hcorrect _ label
    rw [LabelMap.valueOf_harmonicMean, LabelMap.valueOf_harmonicMean]
    exact Exact.harmonicMean_le_harmonicMean (LabelMap.valueOf_shares_nonneg _ _ _) hle
      (LabelMap.valueOf_shares_nonneg _ _ _)
  · exact Exact.ratio_le_ratio m.correctCount_le_found (Nat.le_add_right _ _)
  · exact (Exact.ratio_add_eq_iff m.correctCount_le_found).trans
      (or_congr_left List.length_eq_zero_iff)

end MatchSet

namespace EvaluationResult

/-- **Policies.** With exact numbers every result under the strict policy is stricter than the one
under the lenient policy: over one source unit and over any test cases. There are both results for
every proper name and every time that is not negative, whatever is predicted. -/
theorem ofPredictions_isStricter :
    (∀ (name : Text) (predictions : List TypePrediction) (truths : List GroundTruth) (time : ℚ),
      (∀ strict lenient : EvaluationResult ℚ,
        ofPredictions .strict name predictions truths time = .ok strict →
        ofPredictions .lenient name predictions truths time = .ok lenient →
          strict.IsStricter lenient (.ofPredictions predictions truths)) ∧
      (name ≠ [] → name.hasSurrogate = false → 0 ≤ time →
        ∃ strict lenient : EvaluationResult ℚ,
          ofPredictions .strict name predictions truths time = .ok strict ∧
          ofPredictions .lenient name predictions truths time = .ok lenient)) ∧
    ∀ (done : List (CompletedCase ℚ)) (name : Text),
      (∀ strict lenient : EvaluationResult ℚ,
        (CaseTally.empty.addAll done).score .strict name = .ok strict →
        (CaseTally.empty.addAll done).score .lenient name = .ok lenient →
          strict.IsStricter lenient (CaseTally.empty.addAll done).matching) ∧
      (name ≠ [] → name.hasSurrogate = false → 0 ≤ (CaseTally.empty.addAll done).time →
        ∃ strict lenient : EvaluationResult ℚ,
          (CaseTally.empty.addAll done).score .strict name = .ok strict ∧
          (CaseTally.empty.addAll done).score .lenient name = .ok lenient) := by
  refine ⟨fun name predictions truths time => ⟨fun strict lenient hstrict hlenient => ?_,
    fun hne hname htime => ?_⟩, fun done name => ⟨fun strict lenient hstrict hlenient => ?_,
    fun hne hname htime => ?_⟩⟩
  · rw [eq_of_accept hstrict, eq_of_accept hlenient]
    exact MatchSet.isStricter_scores _ name predictions truths time
  · have hbounds (policy : ScoringPolicy) :=
      (MatchSet.accounts_ofPredictions predictions truths).withinBounds policy name time
    exact ⟨_, _, accept_of_keepsBounds ((hbounds .strict).keepsBounds hne hname htime),
      accept_of_keepsBounds ((hbounds .lenient).keepsBounds hne hname htime)⟩
  · rw [CaseTally.scores_of_score hstrict, CaseTally.scores_of_score hlenient]
    exact MatchSet.isStricter_scores _ name _ _ _
  · have hbounds (policy : ScoringPolicy) :=
      CaseTally.keepsBounds_addAll policy hne hname htime
    exact ⟨_, _, CaseTally.score_of_keepsBounds (hbounds .strict),
      CaseTally.score_of_keepsBounds (hbounds .lenient)⟩

/-- A test case with one entry, a correct prediction and one that is left over. -/
def guessedTwice : CompletedCase ℚ where
  case := ⟨Text.ofString "c1", Text.ofString "case c1", Text.ofString "x",
    [MatchSet.firstEntry "x" "string"], none⟩
  predictions := [MatchSet.guess "string", MatchSet.guess "number"]
  time := 1

/-- Under the strict policy the accuracy is half of what it is under the lenient one, and the label
of the prediction that is left over is added. -/
theorem ofPredictions_isStricter_guessedTwice :
    let name := Text.ofString "guesser"
    let predictions := guessedTwice.predictions
    let truths := guessedTwice.case.truths
    let tally := CaseTally.empty.addAll [guessedTwice]
    name ≠ [] ∧ name.hasSurrogate = false ∧ 0 ≤ guessedTwice.time ∧ 0 ≤ tally.time ∧
    (∃ strict lenient : EvaluationResult ℚ,
      ofPredictions .strict name predictions truths guessedTwice.time = .ok strict ∧
      ofPredictions .lenient name predictions truths guessedTwice.time = .ok lenient ∧
      strict.IsStricter lenient (.ofPredictions predictions truths) ∧
      strict.accuracy = 1 / 2 ∧ lenient.accuracy = 1 ∧
      strict.precisions = [(Text.ofString "string", 1), (Text.ofString "number", 0)] ∧
      lenient.precisions = [(Text.ofString "string", 1)]) ∧
    ∃ strict lenient : EvaluationResult ℚ,
      tally.score .strict name = .ok strict ∧ tally.score .lenient name = .ok lenient ∧
      strict.IsStricter lenient tally.matching := by
  intro name predictions truths tally
  have hne : name ≠ [] := by decide +kernel
  have hname : name.hasSurrogate = false := by decide +kernel
  have htime : 0 ≤ guessedTwice.time := zero_le_one
  have htally : 0 ≤ tally.time := by decide +kernel
  obtain ⟨hunit, hcases⟩ := ofPredictions_isStricter
  refine ⟨hne, hname, htime, htally, ?_, ?_⟩
  · obtain ⟨hcompare, hexists⟩ := hunit name predictions truths guessedTwice.time
    obtain ⟨strict, lenient, hstrict, hlenient⟩ := hexists hne hname htime
    refine ⟨strict, lenient, hstrict, hlenient, hcompare strict lenient hstrict hlenient, ?_⟩
    rw [eq_of_accept hstrict, eq_of_accept hlenient]
    decide +kernel
  · obtain ⟨hcompare, hexists⟩ := hcases [guessedTwice] name
    obtain ⟨strict, lenient, hstrict, hlenient⟩ := hexists hne hname htally
    exact ⟨strict, lenient, hstrict, hlenient, hcompare strict lenient hstrict hlenient⟩

end EvaluationResult

end TypeBench
