import TypeBench.Proofs.Approach.Prediction
import TypeBench.Proofs.Matching.Account

/-!
# Matchings of more predictions

First fit never goes back: predictions that come later are matched with what earlier ones left over.
So the matching of more predictions goes on where that of the first ones ended, and what a
traversal did predict before it failed is paired as it would have been paired otherwise. Over
several test cases each matching goes on by itself, and the matches that there were are not lost.

## Main definitions

* `MatchSet.IsExtendedBy`: a matching that goes on where another one ended.
* `MatchSet.IsWithin`: a matching that has the matches of another one, and may have more.
* `CompletedCase.IsExtendedBy`: a test case with more predictions at the end.

## Main results

* `FirstFit.Run.unmatchedTruths_sublist`: entries are left over in their order.
* `MatchSet.ofPredictions_append_right`: later predictions take what earlier ones left over.
* `MatchSet.isExtendedBy_ofPredictions`: the matching of more predictions.
* `MatchSet.isExtendedBy_predict_mended`: the matching of what a failed traversal predicted.
* `CaseTally.isWithin_addAll`: the matching over test cases.
-/

namespace TypeBench

open List

/-- Entries are left over in their order. -/
theorem FirstFit.Run.unmatchedTruths_sublist {predictions : List TypePrediction}
    {free : List GroundTruth} {m : MatchSet} (h : Run predictions free m) :
    m.unmatchedTruths <+ free := by
  induction h with
  | nil free => exact .refl free
  | @taken _ t before after _ _ _ _ _ ih =>
    exact ih.trans ((sublist_cons_self t after).append_left before)
  | missed _ _ ih => exact ih

namespace MatchSet

/-- Later predictions are matched with what earlier ones left over. -/
theorem ofPredictions_append_right (ps qs : List TypePrediction) (ts : List GroundTruth) :
    ofPredictions (ps ++ qs) ts =
      let first := ofPredictions ps ts
      let rest := ofPredictions qs first.unmatchedTruths
      ⟨first.found ++ rest.found, first.unmatchedPredictions ++ rest.unmatchedPredictions,
        rest.unmatchedTruths⟩ :=
  (run_iff.1 ((run_ofPredictions ps ts).append (run_ofPredictions qs _))).symm

/-- A matching that goes on where another one ended: what that one has matched or left over comes
first, and more entries are taken only from those that it left over. -/
structure IsExtendedBy (a b : MatchSet) : Prop where
  found : a.found <+: b.found
  predicted : a.unmatchedPredictions <+: b.unmatchedPredictions
  verified : b.unmatchedTruths <+ a.unmatchedTruths

/-- The matching of more predictions goes on where that of the first ones ended. -/
theorem isExtendedBy_ofPredictions {ps qs : List TypePrediction} (h : ps <+: qs)
    (ts : List GroundTruth) : (ofPredictions ps ts).IsExtendedBy (ofPredictions qs ts) := by
  obtain ⟨rest, rfl⟩ := h
  rw [ofPredictions_append_right]
  exact {
    found := prefix_append _ _
    predicted := prefix_append _ _
    verified := (run_ofPredictions rest _).unmatchedTruths_sublist }

/-- The matching of what was predicted before a traversal failed goes on if it does not fail. -/
theorem isExtendedBy_predict_mended (parser : SourceParser) (b : Baseline) (source : Text)
    (file : Option Text) (ts : List GroundTruth) :
    ∃ ps whole, (b.predict parser source file).outcome = .ok ps ∧
      (b.predict parser.mended source file).outcome = .ok whole ∧
      (ofPredictions ps ts).IsExtendedBy (ofPredictions whole ts) := by
  cases hparse : parser.parse source with
  | error failure =>
    have hmended : parser.mended.parse source = .error failure := by
      change (parser.parse source).map SourceUnit.mended = _
      rw [hparse]
      rfl
    refine ⟨[], [], ?_, ?_, isExtendedBy_ofPredictions (prefix_refl []) ts⟩
    · rw [Baseline.predict, hparse]
    · rw [Baseline.predict, hmended]
  | ok u =>
    obtain ⟨whole, hwhole, hprefix⟩ := b.predictions_prefix_mended file hparse
    exact ⟨_, whole, b.outcome_predict_of_ok file hparse, hwhole,
      isExtendedBy_ofPredictions hprefix ts⟩

/-! ### Test cases -/

/-- A matching that has what another one has matched or left over, in its order, and may have more
in between; it takes more entries only from those that are left over. -/
structure IsWithin (a b : MatchSet) : Prop where
  found : a.found <+ b.found
  predicted : a.unmatchedPredictions <+ b.unmatchedPredictions
  verified : b.unmatchedTruths <+ a.unmatchedTruths

theorem IsExtendedBy.isWithin {a b : MatchSet} (h : a.IsExtendedBy b) : a.IsWithin b :=
  ⟨h.found.sublist, h.predicted.sublist, h.verified⟩

theorem IsWithin.merge {a b a' b' : MatchSet} (h : a.IsWithin a') (h' : b.IsWithin b') :
    (a.merge b).IsWithin (a'.merge b') :=
  ⟨h.found.append h'.found, h.predicted.append h'.predicted, h.verified.append h'.verified⟩

end MatchSet

variable {R : Type}

/-- A test case with more predictions at the end, whatever time they take. -/
structure CompletedCase.IsExtendedBy (c c' : CompletedCase R) : Prop where
  case_eq : c.case = c'.case
  predictions : c.predictions <+: c'.predictions

theorem CompletedCase.IsExtendedBy.matching {c c' : CompletedCase R} (h : c.IsExtendedBy c') :
    c.matching.IsExtendedBy c'.matching := by
  rw [CompletedCase.matching, CompletedCase.matching, ← h.case_eq]
  exact MatchSet.isExtendedBy_ofPredictions h.predictions c.case.truths

section Cases

variable {done done' : List (CompletedCase R)} (h : Forall₂ CompletedCase.IsExtendedBy done done')

include h

theorem CompletedCase.truths_eq_of_isExtendedBy :
    done.flatMap (·.case.truths) = done'.flatMap (·.case.truths) := by
  induction h with
  | nil => rfl
  | cons hfirst _ ih => rw [flatMap_cons, flatMap_cons, hfirst.case_eq, ih]

theorem CompletedCase.isWithin_concat :
    (MatchSet.concat (done.map (·.matching))).IsWithin (.concat (done'.map (·.matching))) := by
  induction h with
  | nil => exact ⟨.refl [], .refl [], .refl []⟩
  | cons hfirst _ ih => exact hfirst.matching.isWithin.merge ih

/-- What is collected over test cases with more predictions has the matches that there were. -/
theorem CaseTally.isWithin_addAll [Quantity R] :
    (CaseTally.empty.addAll done).matching.IsWithin (CaseTally.empty.addAll done').matching := by
  rw [addAll_eq, addAll_eq]
  exact CompletedCase.isWithin_concat h

end Cases

end TypeBench
