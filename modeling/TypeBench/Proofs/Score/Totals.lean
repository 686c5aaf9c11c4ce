import Mathlib.Algebra.BigOperators.Group.List.Basic
import TypeBench.Proofs.Score.Bounds
import TypeBench.Proofs.Score.LabelMaps

/-!
# Totals of results

The metrics of labels and the overall counts are computed apart from each other, from different
lists. They fit together since every item has one label: with exact numbers the shares of all
labels, each times the number of items that it is a share of, add up to the number of correct
predictions, and these numbers of items add up to the whole. This holds of the predictions that
count and of the ground truth, over any test cases.

## Main definitions

* `MatchSet.scored`: the predictions that a policy counts.
* `EvaluationResult.AddsUp`: the metrics of a result fit together.

## Main results

* `sum_count_eq_length`: the counts of different items add up to the length of a list.
* `LabelMap.sum_shares`, `LabelMap.sum_counts`: the sums over the labels of a map of shares.
* `MatchSet.Accounts.addsUp`: the scores of a matching that accounts for both lists add up.
* `Bench.evaluate_addsUp`: the results of evaluations add up.
-/

namespace TypeBench

/-! ### Sums over labels -/

section Counts

variable {α : Type} [BEq α] [LawfulBEq α]

theorem sum_indicator_eq_count (keys : List α) (item : α) :
    (keys.map fun key => if item == key then 1 else 0).sum = keys.count item := by
  induction keys with
  | nil => rfl
  | cons key keys ih =>
    rw [List.map_cons, List.sum_cons, ih, List.count_cons, Nat.add_comm, BEq.comm]

/-- The counts of different items add up to the length of a list that has no others. -/
theorem sum_count_eq_length {keys items : List α} (hkeys : keys.Nodup) (hitems : items ⊆ keys) :
    (keys.map fun key => items.count key).sum = items.length := by
  induction items with
  | nil => simp
  | cons item items ih =>
    obtain ⟨hitem, hrest⟩ := List.cons_subset.1 hitems
    simp only [List.count_cons, List.sum_map_add, ih hrest, sum_indicator_eq_count,
      List.count_eq_one_of_mem hkeys hitem, List.length_cons]

end Counts

namespace LabelMap

/-- The shares of all labels, each times the number of items that it is a share of, add up to the
number of correct items. -/
theorem sum_shares {correct labels : List Text} (h : correct ⊆ labels) :
    ((shares ℚ correct labels).map fun entry => entry.2 * (labels.count entry.1 : ℚ)).sum =
      (correct.length : ℚ) := by
  have hshare (label : Text) (hlabel : label ∈ labels.eraseDups) :
      (Quantity.ratio (correct.count label) (labels.count label) : ℚ) * labels.count label =
        (correct.count label : ℚ) := by
    have hcount : (labels.count label : ℚ) ≠ 0 :=
      Nat.cast_ne_zero.2 (List.count_pos_iff.2 (List.mem_eraseDups.1 hlabel)).ne'
    rw [Exact.ratio_eq, div_mul_cancel₀ _ hcount]
  have hsubset : correct ⊆ labels.eraseDups := fun label hlabel => List.mem_eraseDups.2 (h hlabel)
  calc ((shares ℚ correct labels).map fun entry => entry.2 * (labels.count entry.1 : ℚ)).sum
      = (labels.eraseDups.map fun label => (correct.count label : ℚ)).sum := by
        rw [shares, List.map_map]
        exact congrArg List.sum (List.map_congr_left hshare)
    _ = ((labels.eraseDups.map fun label => correct.count label).sum : ℕ) := by
        rw [← Nat.coe_castAddMonoidHom, map_list_sum, List.map_map]
        rfl
    _ = correct.length := by rw [sum_count_eq_length (nodup_eraseDups labels) hsubset]

/-- The numbers of items of all labels add up to the number of items. -/
theorem sum_counts {R : Type} [Quantity R] (correct labels : List Text) :
    ((shares R correct labels).map fun entry => labels.count entry.1).sum = labels.length := by
  rw [shares, List.map_map]
  exact sum_count_eq_length (nodup_eraseDups labels) fun label => List.mem_eraseDups.2

end LabelMap

/-! ### Predictions that count -/

namespace MatchSet

/-- The predictions that a policy counts: those of the matches, and under the strict policy those
that are left over. -/
def scored (m : MatchSet) : ScoringPolicy → List TypePrediction
  | .lenient => m.found.map (·.prediction)
  | .strict => m.found.map (·.prediction) ++ m.unmatchedPredictions

variable {m : MatchSet} {predictions : List TypePrediction} {truths : List GroundTruth}

theorem scoredLabels_eq_map (m : MatchSet) (policy : ScoringPolicy) :
    m.scoredLabels policy = (m.scored policy).map (·.label) := by
  cases policy with
  | lenient => simp only [scoredLabels, scored, List.map_map, List.append_nil, Function.comp_def]
  | strict => simp only [scoredLabels, scored, List.map_append, List.map_map, Function.comp_def]

theorem precisions_eq_shares (R : Type) [Quantity R] (m : MatchSet) (policy : ScoringPolicy) :
    m.precisions R policy =
      LabelMap.shares R m.correctLabels ((m.scored policy).map (·.label)) := by
  rw [precisions_eq, scoredLabels_eq_map]

theorem scoredCount_eq_length (m : MatchSet) (policy : ScoringPolicy) :
    m.scoredCount policy = (m.scored policy).length := by
  cases policy with
  | lenient => rw [scoredCount, scored, List.length_map]
  | strict => simp only [scoredCount, scored, List.length_append, List.length_map]

theorem length_correctLabels (m : MatchSet) : m.correctLabels.length = m.correctCount := by
  rw [correctLabels, List.length_map, correctCount, List.countP_eq_length_filter]

theorem correctLabels_subset_scored (m : MatchSet) (policy : ScoringPolicy) :
    m.correctLabels ⊆ (m.scored policy).map (·.label) := by
  intro label hlabel
  have hle := m.count_correctLabels_le_scored policy label
  rw [scoredLabels_eq_map] at hle
  exact List.count_pos_iff.1 (Nat.lt_of_lt_of_le (List.count_pos_iff.2 hlabel) hle)

theorem Accounts.correctLabels_subset_truths (h : m.Accounts predictions truths) :
    m.correctLabels ⊆ truths.map (·.label) := by
  intro label hlabel
  have hle := h.count_correctLabels_le_truths label
  exact List.count_pos_iff.1 (Nat.lt_of_lt_of_le (List.count_pos_iff.2 hlabel) hle)

/-- The share of correct predictions in the ground truth is that among the matches times that of the
matches. -/
theorem Accounts.accuracy_mul_coverage (h : m.Accounts predictions truths) :
    (m.correctCount : ℚ) / truths.length = m.accuracy ℚ .lenient * m.coverage ℚ truths := by
  rw [h.balances.coverage_eq, accuracy, scoredCount, Exact.ratio_eq, Exact.ratio_eq]
  by_cases hfound : (m.found.length : ℚ) = 0
  · have hcorrect : m.correctCount = 0 :=
      Nat.le_zero.1 (m.correctCount_le_found.trans_eq (Nat.cast_eq_zero.1 hfound))
    rw [hcorrect, hfound, Nat.cast_zero, zero_div, zero_div, zero_mul]
  · rw [div_mul_div_cancel₀ hfound]

end MatchSet

/-! ### Results that add up -/

/-- The metrics of a result fit together, where some predictions count under a policy: the shares of
labels add up to the correct predictions and the numbers of their items to the totals. What the
total leaves out under the lenient policy are the predictions without an entry. -/
structure EvaluationResult.AddsUp (r : EvaluationResult ℚ) (policy : ScoringPolicy)
    (scored : List TypePrediction) (truths : List GroundTruth) : Prop where
  nodup_precisions : (Named.names r.precisions).Nodup
  nodup_recalls : (Named.names r.recalls).Nodup
  precisions_correct :
    (r.precisions.map fun entry => entry.2 * ((scored.map (·.label)).count entry.1 : ℚ)).sum =
      (r.correct : ℚ)
  precisions_total :
    (r.precisions.map fun entry => (scored.map (·.label)).count entry.1).sum = r.total
  recalls_correct :
    (r.recalls.map fun entry => entry.2 * ((truths.map (·.label)).count entry.1 : ℚ)).sum =
      (r.correct : ℚ)
  recalls_total :
    (r.recalls.map fun entry => (truths.map (·.label)).count entry.1).sum = truths.length
  accuracy_mul_coverage : policy = .lenient → ∃ coverage : ℚ,
    r.additional.lookup (Text.ofString "coverage") = some coverage ∧
      (r.correct : ℚ) / truths.length = r.accuracy * coverage
  total_of_strict : policy = .strict → r.total = r.predictions.length
  total_of_lenient : policy = .lenient → ∃ unmatched : ℚ,
    r.additional.lookup (Text.ofString "unmatched_predictions") = some unmatched ∧
      (r.total : ℚ) = r.predictions.length - unmatched

/-- The scores of a matching that accounts for both lists add up. -/
theorem MatchSet.Accounts.addsUp {m : MatchSet} {predictions : List TypePrediction}
    {truths : List GroundTruth} (h : m.Accounts predictions truths) (policy : ScoringPolicy)
    (name : Text) (time : ℚ) :
    (m.scores policy name predictions truths time).AddsUp policy (m.scored policy) truths := by
  have hprecisions : (m.scores policy name predictions truths time).precisions =
      LabelMap.shares ℚ m.correctLabels ((m.scored policy).map (·.label)) :=
    m.precisions_eq_shares ℚ policy
  have hlength := h.balances.predictions_length
  refine {
    nodup_precisions := ?_, nodup_recalls := ?_, precisions_correct := ?_, precisions_total := ?_,
    recalls_correct := ?_, recalls_total := ?_, accuracy_mul_coverage := ?_, total_of_strict := ?_,
    total_of_lenient := ?_ }
  · rw [hprecisions]
    exact LabelMap.nodup_names_shares _ _
  · exact LabelMap.nodup_names_shares _ _
  · rw [hprecisions, LabelMap.sum_shares (m.correctLabels_subset_scored policy),
      m.length_correctLabels]
    rfl
  · rw [hprecisions, LabelMap.sum_counts, List.length_map, ← m.scoredCount_eq_length]
    rfl
  · exact (LabelMap.sum_shares h.correctLabels_subset_truths).trans
      (congrArg Nat.cast m.length_correctLabels)
  · exact (LabelMap.sum_counts _ _).trans (List.length_map _)
  · rintro rfl
    exact ⟨m.coverage ℚ truths, rfl, h.accuracy_mul_coverage⟩
  · rintro rfl
    exact hlength.symm
  · rintro rfl
    refine ⟨m.unmatchedPredictions.length, rfl, ?_⟩
    change (m.found.length : ℚ) = predictions.length - m.unmatchedPredictions.length
    rw [hlength, Nat.cast_add, add_sub_cancel_right]

/-- What is collected over test cases adds up. -/
theorem CaseTally.addsUp_addAll (done : List (CompletedCase ℚ)) (policy : ScoringPolicy)
    (name : Text) :
    ((CaseTally.empty.addAll done).scores policy name).AddsUp policy
      ((CaseTally.empty.addAll done).matching.scored policy) (done.flatMap (·.case.truths)) := by
  rw [scores_addAll]
  exact (accounts_addAll done).addsUp policy name _

namespace Bench

/-- **Totals.** With exact numbers the metrics of labels in every result over test cases add up to
its overall counts, under either policy, and so they do in the results of evaluations. -/
theorem evaluate_addsUp :
    (∀ (done : List (CompletedCase ℚ)) (policy : ScoringPolicy) (name : Text)
      (r : EvaluationResult ℚ), (CaseTally.empty.addAll done).score policy name = .ok r →
        r.AddsUp policy ((CaseTally.empty.addAll done).matching.scored policy)
          (done.flatMap (·.case.truths))) ∧
    ∀ (A : Type) [Approach A] (bench : Bench A) (world : World ℚ) (name : Text)
      (cases : List TestCase) (options : Options) (r : EvaluationResult ℚ),
      (bench.evaluate world name cases options).outcome = .ok r →
        ∃ (registration : Registration A) (done : List (CompletedCase ℚ)) (a : A)
          (clock : Clock ℚ), bench.find? name = some registration ∧
            CourseRun bench.policy name cases options registration.approach world.clock
              ⟨done, none, .ok r⟩ a clock ∧
            done.map (·.case) = cases ∧
            r.AddsUp bench.policy
              ((CaseTally.empty.addAll done).matching.scored bench.policy)
              (cases.flatMap (·.truths)) := by
  refine ⟨fun done policy name r h => ?_, fun A _ bench world name cases options r hr => ?_⟩
  · rw [CaseTally.scores_of_score h]
    exact CaseTally.addsUp_addAll done policy name
  · obtain ⟨registration, done, a, clock, hfind, hcourse, rfl, rfl⟩ := evaluate_scored hr
    refine ⟨registration, done, a, clock, hfind, hcourse, rfl, ?_⟩
    rw [List.flatMap_map]
    exact CaseTally.addsUp_addAll done bench.policy name

/-- An approach that takes all variables for strings, and then the one of the first test case for a
number as well. -/
def wavering : Script where
  name := Text.ofString "wavering"
  ready := .ok ()
  predictions _ file :=
    .ok (if file = Text.ofString "c1" then [MatchSet.guess "string", MatchSet.guess "number"]
      else [MatchSet.guess "string"])
  done := .ok ()

/-- One of three predictions is correct, one is wrong and one is left over; the last one does not
count under the lenient policy. -/
theorem evaluate_addsUp_wavering :
    (∃ (r : EvaluationResult ℚ) (done : List (CompletedCase ℚ)),
      (((Bench.empty .strict).add wavering).evaluate pausingWorld wavering.name sharedPlace
        []).outcome = .ok r ∧
      (CaseTally.empty.addAll done).score .strict wavering.name = .ok r ∧
      done.map (·.case) = sharedPlace ∧ r.total = 3 ∧ r.correct = 1 ∧
      r.precisions = [(Text.ofString "string", 1 / 2), (Text.ofString "number", 0)] ∧
      r.AddsUp .strict ((CaseTally.empty.addAll done).matching.scored .strict)
        (sharedPlace.flatMap (·.truths))) ∧
    ∃ (r : EvaluationResult ℚ) (done : List (CompletedCase ℚ)),
      (((Bench.empty .lenient).add wavering).evaluate pausingWorld wavering.name sharedPlace
        []).outcome = .ok r ∧
      (CaseTally.empty.addAll done).score .lenient wavering.name = .ok r ∧
      done.map (·.case) = sharedPlace ∧ r.total = 2 ∧ r.correct = 1 ∧
      r.precisions = [(Text.ofString "string", 1 / 2)] ∧
      r.AddsUp .lenient ((CaseTally.empty.addAll done).matching.scored .lenient)
        (done.flatMap (·.case.truths)) := by
  obtain ⟨hscore, hevaluate⟩ := evaluate_addsUp
  constructor
  · have hmetrics : (((Bench.empty .strict).add wavering).evaluate pausingWorld wavering.name
        sharedPlace []).outcome.map (fun r => (r.total, r.correct, r.precisions)) =
          .ok (3, 1, [(Text.ofString "string", 1 / 2), (Text.ofString "number", 0)]) := by
      decide +kernel
    obtain ⟨r, houtcome, hvalues⟩ := exists_of_map_eq_ok hmetrics
    simp only [Prod.mk.injEq] at hvalues
    obtain ⟨htotal, hcorrect, hprecisions⟩ := hvalues
    obtain ⟨_, done, _, _, -, hcourse, hcases, haddsUp⟩ := hevaluate Script _ _ _ _ _ r houtcome
    obtain ⟨-, hscored⟩ := hcourse.score_of_ok
    exact ⟨r, done, houtcome, hscored, hcases, htotal, hcorrect, hprecisions, haddsUp⟩
  · have hmetrics : (((Bench.empty .lenient).add wavering).evaluate pausingWorld wavering.name
        sharedPlace []).outcome.map (fun r => (r.total, r.correct, r.precisions)) =
          .ok (2, 1, [(Text.ofString "string", 1 / 2)]) := by
      decide +kernel
    obtain ⟨r, houtcome, hvalues⟩ := exists_of_map_eq_ok hmetrics
    simp only [Prod.mk.injEq] at hvalues
    obtain ⟨htotal, hcorrect, hprecisions⟩ := hvalues
    obtain ⟨_, done, _, _, -, hcourse, -⟩ := hevaluate Script _ _ _ _ _ r houtcome
    obtain ⟨hcases, hscored⟩ := hcourse.score_of_ok
    exact ⟨r, done, houtcome, hscored, hcases, htotal, hcorrect, hprecisions,
      hscore done .lenient wavering.name r hscored⟩

end Bench

end TypeBench
