import TypeBench.Proofs.Evaluation.Tagging
import TypeBench.Proofs.Matching.Conservation

/-!
# Accounts of both lists

A matching accounts for all predictions and for the whole ground truth: what is in its matches and
what is left over are these lists again, up to order. The account of several test cases is the sum
of theirs, so it holds of what an evaluation collects, over any number of test cases. All bounds on
counts follow from it.

## Main definitions

* `MatchSet.Accounts`: a matching with the lists that it accounts for.

## Main results

* `MatchSet.Accounts.merge`, `CaseTally.accounts_addAll`: accounts of several test cases.
* `CaseTally.scores_addAll`: their scores.
* `MatchSet.Accounts.scoredCount_le`: no policy counts more predictions than there are.
* `MatchSet.count_correctLabels_le_scored`, `MatchSet.Accounts.count_correctLabels_le_truths`: no
  label has more correct matches than predictions that count, nor than entries.
-/

namespace TypeBench

open List

/-- Lists that are merged into one have its items, up to order. -/
theorem Interleaves.perm {α : Type} {as bs all : List α} (h : Interleaves as bs all) :
    as ++ bs ~ all := by
  induction h with
  | nil => exact .refl []
  | left a _ ih => exact ih.cons a
  | right b _ ih => exact perm_middle.trans (ih.cons b)

namespace MatchSet

/-- A matching of equal keys whose matches and leftovers are the predictions and the ground truth
again, up to order. -/
structure Accounts (m : MatchSet) (predictions : List TypePrediction)
    (truths : List GroundTruth) : Prop where
  predictions_perm : m.found.map (·.prediction) ++ m.unmatchedPredictions ~ predictions
  truths_perm : m.found.map (·.truth) ++ m.unmatchedTruths ~ truths
  keys_eq : ∀ x ∈ m.found, x.prediction.key = x.truth.key

theorem accounts_ofPredictions (predictions : List TypePrediction) (truths : List GroundTruth) :
    (ofPredictions predictions truths).Accounts predictions truths := by
  have hrun := run_ofPredictions predictions truths
  exact ⟨hrun.interleaved.perm, hrun.perm_truths, hrun.keys_eq⟩

/-- Of two pairs of lists the first parts and then the second parts have the same items. -/
theorem append_append_perm {α : Type} (as bs cs ds : List α) :
    as ++ bs ++ (cs ++ ds) ~ as ++ cs ++ (bs ++ ds) := by
  have hmiddle : bs ++ (cs ++ ds) ~ cs ++ (bs ++ ds) := by
    rw [← append_assoc, ← append_assoc]
    exact perm_append_comm.append_right ds
  rw [append_assoc, append_assoc]
  exact hmiddle.append_left as

theorem Accounts.merge {a b : MatchSet} {ps qs : List TypePrediction} {ts us : List GroundTruth}
    (ha : a.Accounts ps ts) (hb : b.Accounts qs us) :
    (a.merge b).Accounts (ps ++ qs) (ts ++ us) where
  predictions_perm := by
    have hboth := ha.predictions_perm.append hb.predictions_perm
    rw [MatchSet.merge, map_append]
    exact (append_append_perm ..).trans hboth
  truths_perm := by
    have hboth := ha.truths_perm.append hb.truths_perm
    rw [MatchSet.merge, map_append]
    exact (append_append_perm ..).trans hboth
  keys_eq := forall_mem_append.2 ⟨ha.keys_eq, hb.keys_eq⟩

end MatchSet

namespace CaseTally

variable {R : Type} [Quantity R] (done : List (CompletedCase R))

theorem predictions_addAll :
    (CaseTally.empty.addAll done).predictions = done.flatMap (·.predictions) := by
  rw [addAll_eq]
  rfl

theorem truths_addAll : (CaseTally.empty.addAll done).truths = done.flatMap (·.case.truths) := by
  rw [addAll_eq]
  rfl

/-- The scores over test cases are those of the matching of all their predictions and entries. -/
theorem scores_addAll (policy : ScoringPolicy) (name : Text) :
    (CaseTally.empty.addAll done).scores policy name =
      (CaseTally.empty.addAll done).matching.scores policy name (done.flatMap (·.predictions))
        (done.flatMap (·.case.truths)) (CaseTally.empty.addAll done).time := by
  rw [scores, predictions_addAll, truths_addAll]

/-- What is collected over test cases is accounted for. -/
theorem accounts_addAll :
    (CaseTally.empty.addAll done).matching.Accounts (done.flatMap (·.predictions))
      (done.flatMap (·.case.truths)) := by
  have hall (t : CaseTally R) (h : t.matching.Accounts t.predictions t.truths) :
      (t.addAll done).matching.Accounts (t.addAll done).predictions (t.addAll done).truths := by
    induction done generalizing t with
    | nil => exact h
    | cons first done ih => exact ih _ (h.merge (MatchSet.accounts_ofPredictions _ _))
  have hempty := hall CaseTally.empty ⟨.refl [], .refl [], fun x hx => absurd hx not_mem_nil⟩
  rwa [predictions_addAll, truths_addAll] at hempty

end CaseTally

namespace MatchSet

variable {m : MatchSet} {predictions : List TypePrediction} {truths : List GroundTruth}

theorem Accounts.balances (h : m.Accounts predictions truths) : m.Balances predictions truths where
  predictions_length := by
    rw [← h.predictions_perm.length_eq, length_append, length_map]
  truths_length := by
    rw [← h.truths_perm.length_eq, length_append, length_map]

theorem correctCount_le_found (m : MatchSet) : m.correctCount ≤ m.found.length :=
  countP_le_length

theorem found_le_scoredCount (m : MatchSet) (policy : ScoringPolicy) :
    m.found.length ≤ m.scoredCount policy := by
  cases policy with
  | lenient => exact Nat.le_refl _
  | strict => exact Nat.le_add_right _ _

/-- No policy counts more predictions than there are. -/
theorem Accounts.scoredCount_le (h : m.Accounts predictions truths) (policy : ScoringPolicy) :
    m.scoredCount policy ≤ predictions.length := by
  have hlength := h.balances.predictions_length
  cases policy with
  | lenient =>
    change m.found.length ≤ predictions.length
    omega
  | strict => exact Nat.le_of_eq hlength.symm

/-! ### Labels -/

/-- No label has more correct matches than predictions that count. -/
theorem count_correctLabels_le_scored (m : MatchSet) (policy : ScoringPolicy) (label : Text) :
    m.correctLabels.count label ≤ (m.scoredLabels policy).count label := by
  have hfound : m.correctLabels <+ m.found.map (·.prediction.label) := by
    rw [← correctPredictedLabels_eq]
    exact filter_sublist.map _
  have hscored : m.found.map (·.prediction.label) <+ m.scoredLabels policy :=
    sublist_append_left _ _
  exact (hfound.trans hscored).count_le label

/-- No label has more correct matches than entries. -/
theorem Accounts.count_correctLabels_le_truths (h : m.Accounts predictions truths)
    (label : Text) : m.correctLabels.count label ≤ (truths.map (·.label)).count label := by
  have hfound : m.correctLabels <+ (m.found.map (·.truth) ++ m.unmatchedTruths).map (·.label) := by
    have hcorrect : m.correctLabels <+ m.found.map (·.truth.label) := filter_sublist.map _
    rw [map_append, map_map]
    exact hcorrect.trans (sublist_append_left _ _)
  have hlabels := (h.truths_perm.map (·.label)).count_eq label
  exact Nat.le_trans (hfound.count_le label) (Nat.le_of_eq hlabels)

end MatchSet

end TypeBench
