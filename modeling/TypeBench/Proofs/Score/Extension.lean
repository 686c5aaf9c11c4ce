import TypeBench.Proofs.Evaluation.Success
import TypeBench.Proofs.Matching.Extension
import TypeBench.Proofs.Number.Rounding
import TypeBench.Proofs.Score.LabelMaps

/-!
# Scores of more predictions

More predictions can only add matches, and what recall and coverage divide by is the ground truth,
which stays. So neither of them falls, whatever else is predicted. Both are rounded quotients, and
rounding keeps the order of shares of one whole. Accuracy and precision are not among these scores:
what they divide by grows, too.

## Main definitions

* `Quantity.KeepsShares`: an order in which a share of a larger part is no less.
* `EvaluationResult.GrowsTo`: results whose correct matches, recall and coverage do not fall.
* `EvaluationResult.NeverFalls`: the same in binary64 numbers.

## Main results

* `MatchSet.IsWithin.growsTo`: the scores of a matching with more matches.
* `EvaluationResult.ofPredictions_growing`: results of more predictions.
-/

namespace TypeBench

open List

/-! ### Shares of one whole -/

/-- Of two shares of one whole, up to a bound, that of the larger part is no less. -/
def Quantity.KeepsShares {R : Type} [Quantity R] (noLess : R → R → Prop) (bound : Nat) : Prop :=
  ∀ ⦃part part' whole : Nat⦄, part ≤ part' → whole ≤ bound →
    noLess (Quantity.ratio part whole) (Quantity.ratio part' whole)

theorem Binary64.keepsShares_not_lt (bound : Nat) :
    Quantity.KeepsShares (fun x y : Binary64 => Quantity.lt y x = false) bound :=
  fun _ _ whole hpart _ => not_ratio_lt hpart whole

theorem Binary64.keepsShares_le {bound : Nat} (h : (bound : Binary64).isFinite = true) :
    Quantity.KeepsShares (fun x y : Binary64 => Quantity.le x y = true) bound :=
  fun _ _ whole hpart hwhole => ratio_mono hpart whole (isFinite_natCast_of_le hwhole h)

/-! ### Scores -/

namespace EvaluationResult

/-- Results whose correct matches, recall of any label and coverage do not fall. -/
structure GrowsTo {R : Type} [Quantity R] (noLess : R → R → Prop) (r r' : EvaluationResult R) :
    Prop where
  correct_le : r.correct ≤ r'.correct
  names_eq : Named.names r.recalls = Named.names r'.recalls
  recalls : ∀ label, noLess (r.recalls.valueOf label) (r'.recalls.valueOf label)
  coverage : ∃ share share', r.additional.lookup (Text.ofString "coverage") = some share ∧
    r'.additional.lookup (Text.ofString "coverage") = some share' ∧ noLess share share'

/-- Results that do not fall in binary64 numbers: nothing is below what it was, and it is no less
than that, unless there are more entries than can be counted. -/
structure NeverFalls (entries : Nat) (r r' : EvaluationResult Binary64) : Prop where
  not_lt : r.GrowsTo (fun x y => Quantity.lt y x = false) r'
  le : (entries : Binary64).isFinite = true → r.GrowsTo (fun x y => Quantity.le x y = true) r'

end EvaluationResult

namespace MatchSet.IsWithin

variable {a b : MatchSet}

theorem correctCount_le (h : a.IsWithin b) : a.correctCount ≤ b.correctCount :=
  h.found.countP_le

theorem count_correctLabels_le (h : a.IsWithin b) (label : Text) :
    a.correctLabels.count label ≤ b.correctLabels.count label :=
  ((h.found.filter _).map _).count_le label

/-- The scores of a matching with more matches of the same ground truth. -/
theorem growsTo {R : Type} [Quantity R] (h : a.IsWithin b) {noLess : R → R → Prop}
    {ts : List GroundTruth} (hshares : Quantity.KeepsShares noLess ts.length)
    (policy policy' : ScoringPolicy) (name name' : Text) (ps qs : List TypePrediction)
    (time time' : R) :
    (a.scores policy name ps ts time).GrowsTo noLess (b.scores policy' name' qs ts time') where
  correct_le := h.correctCount_le
  names_eq := by
    change Named.names (LabelMap.shares ..) = Named.names (LabelMap.shares ..)
    rw [LabelMap.names_shares, LabelMap.names_shares]
  recalls label := by
    change noLess ((LabelMap.shares ..).valueOf label) ((LabelMap.shares ..).valueOf label)
    rw [LabelMap.valueOf, LabelMap.valueOf, LabelMap.lookup_shares, LabelMap.lookup_shares]
    -- The entries of a label stay, so only the part grows.
    split
    · have hwhole : (ts.map (·.label)).count label ≤ ts.length :=
        count_le_length.trans_eq (length_map _)
      exact hshares (h.count_correctLabels_le label) hwhole
    · exact hshares (Nat.le_refl 0) (Nat.zero_le _)
  coverage := by
    have hpart : ts.length - a.unmatchedTruths.length ≤ ts.length - b.unmatchedTruths.length :=
      Nat.sub_le_sub_left h.verified.length_le _
    exact ⟨_, _, rfl, rfl, hshares hpart (Nat.le_refl _)⟩

theorem neverFalls (h : a.IsWithin b) (ts : List GroundTruth) (policy policy' : ScoringPolicy)
    (name name' : Text) (ps qs : List TypePrediction) (time time' : Binary64) :
    EvaluationResult.NeverFalls ts.length (a.scores policy name ps ts time)
      (b.scores policy' name' qs ts time') where
  not_lt := h.growsTo (Binary64.keepsShares_not_lt _) ..
  le hfinite := h.growsTo (Binary64.keepsShares_le hfinite) ..

end MatchSet.IsWithin

/-- What is collected over test cases with more predictions has scores that do not fall. -/
theorem CaseTally.neverFalls_addAll {done done' : List (CompletedCase Binary64)}
    (h : Forall₂ CompletedCase.IsExtendedBy done done') (policy policy' : ScoringPolicy)
    (name name' : Text) :
    EvaluationResult.NeverFalls (done.flatMap (·.case.truths)).length
      ((CaseTally.empty.addAll done).scores policy name)
      ((CaseTally.empty.addAll done').scores policy' name') := by
  rw [scores_addAll, scores_addAll, ← CompletedCase.truths_eq_of_isExtendedBy h]
  exact (isWithin_addAll h).neverFalls ..

namespace EvaluationResult

/-- **More predictions.** The matching of more predictions goes on where that of the first ones
ended, as does that of what a traversal predicts if it does not fail. So the correct matches, the
recall of each label and the coverage do not fall, in results over one source unit and in those over
test cases. -/
theorem ofPredictions_growing (ps qs : List TypePrediction) (ts : List GroundTruth) :
    (MatchSet.ofPredictions ps ts).IsExtendedBy (.ofPredictions (ps ++ qs) ts) ∧
    (∀ (parser : SourceParser) (b : Baseline) (source : Text) (file : Option Text),
      ∃ early whole, (b.predict parser source file).outcome = .ok early ∧
        (b.predict parser.mended source file).outcome = .ok whole ∧
        (MatchSet.ofPredictions early ts).IsExtendedBy (.ofPredictions whole ts)) ∧
    (∀ (policy policy' : ScoringPolicy) (name name' : Text) (time time' : Binary64)
      (r r' : EvaluationResult Binary64), ofPredictions policy name ps ts time = .ok r →
      ofPredictions policy' name' (ps ++ qs) ts time' = .ok r' → NeverFalls ts.length r r') ∧
    ∀ (done done' : List (CompletedCase Binary64)), Forall₂ CompletedCase.IsExtendedBy done done' →
      ∀ (policy policy' : ScoringPolicy) (name name' : Text) (r r' : EvaluationResult Binary64),
        (CaseTally.empty.addAll done).score policy name = .ok r →
        (CaseTally.empty.addAll done').score policy' name' = .ok r' →
          NeverFalls (done.flatMap (·.case.truths)).length r r' := by
  have hmatching := MatchSet.isExtendedBy_ofPredictions (prefix_append ps qs) ts
  refine ⟨hmatching, fun parser b source file =>
    MatchSet.isExtendedBy_predict_mended parser b source file ts,
    fun policy policy' name name' time time' r r' hr hr' => ?_,
    fun done done' h policy policy' name name' r r' hr hr' => ?_⟩
  · rw [eq_of_accept hr, eq_of_accept hr']
    exact hmatching.isWithin.neverFalls ..
  · rw [CaseTally.scores_of_score hr, CaseTally.scores_of_score hr']
    exact CaseTally.neverFalls_addAll h ..

/-- Two more predictions of a key with two entries: the second one is correct, and the third one is
left over. Nothing falls, over the source unit alone, and over two test cases that were not
predicted as far; and a place that cannot be read loses a prediction at the end. -/
theorem ofPredictions_growing_threeGuesses :
    let first := MatchSet.guess "number"
    let second := MatchSet.guess "string"
    let name := Text.ofString "guesser"
    let entries := MatchSet.threeEntries
    let done := List.replicate 2 { MatchSet.guessedCase with predictions := [first] }
    let done' := List.replicate 2 MatchSet.guessedCase
    (MatchSet.ofPredictions [first] entries).IsExtendedBy
      (.ofPredictions ([first] ++ [second, first]) entries) ∧
    (∃ early whole, (Baseline.eager.predict Baseline.lostParser [] none).outcome = .ok early ∧
      (Baseline.eager.predict Baseline.lostParser.mended [] none).outcome = .ok whole ∧
      early.map (·.identifier) = [Text.ofString "a"] ∧
      whole.map (·.identifier) = [Text.ofString "a", Text.ofString "b"] ∧
      (MatchSet.ofPredictions early entries).IsExtendedBy (.ofPredictions whole entries)) ∧
    (∃ r r' : EvaluationResult Binary64,
      ofPredictions .strict name [first] entries 1 = .ok r ∧
      ofPredictions .strict name ([first] ++ [second, first]) entries 1 = .ok r' ∧
      r.correct = 0 ∧ r'.correct = 1 ∧ r.GrowsTo (fun x y => Quantity.le x y = true) r') ∧
    ∃ r r' : EvaluationResult Binary64,
      (CaseTally.empty.addAll done).score .strict name = .ok r ∧
      (CaseTally.empty.addAll done').score .strict name = .ok r' ∧
      r.correct = 0 ∧ r'.correct = 2 ∧ r.GrowsTo (fun x y => Quantity.le x y = true) r' := by
  intro first second name entries done done'
  obtain ⟨hmatching, hlost, hunit, htally⟩ :=
    ofPredictions_growing [first] [second, first] entries
  refine ⟨hmatching, ?_, ?_, ?_⟩
  · obtain ⟨early, whole, hearly, hwhole, hextended⟩ :=
      hlost Baseline.lostParser Baseline.eager [] none
    refine ⟨early, whole, hearly, hwhole, ?_, ?_, hextended⟩
    · rw [Baseline.outcome_predict_of_ok (u := Baseline.lostPlace) none Baseline.eager rfl]
        at hearly
      rw [← Except.ok.inj hearly]
      decide +kernel
    · rw [Baseline.outcome_predict_of_ok (u := Baseline.lostPlace.mended) none Baseline.eager rfl]
        at hwhole
      rw [← Except.ok.inj hwhole]
      decide +kernel
  · have hcorrect : (ofPredictions .strict name [first] entries (1 : Binary64)).map (·.correct) =
        .ok 0 := by decide +kernel
    have hcorrect' : (ofPredictions .strict name ([first] ++ [second, first]) entries
        (1 : Binary64)).map (·.correct) = .ok 1 := by decide +kernel
    obtain ⟨r, hr, hzero⟩ := exists_of_map_eq_ok hcorrect
    obtain ⟨r', hr', hone⟩ := exists_of_map_eq_ok hcorrect'
    have hnever := hunit .strict .strict name name 1 1 r r' hr hr'
    exact ⟨r, r', hr, hr', hzero, hone, hnever.le (by decide +kernel)⟩
  · have hcorrect : ((CaseTally.empty.addAll done).score .strict name).map (·.correct) = .ok 0 := by
      decide +kernel
    have hcorrect' : ((CaseTally.empty.addAll done').score .strict name).map (·.correct) =
        .ok 2 := by decide +kernel
    obtain ⟨r, hr, hzero⟩ := exists_of_map_eq_ok hcorrect
    obtain ⟨r', hr', htwo⟩ := exists_of_map_eq_ok hcorrect'
    have hcase : CompletedCase.IsExtendedBy
        { MatchSet.guessedCase with predictions := [first] } MatchSet.guessedCase :=
      ⟨rfl, [second, first], rfl⟩
    have hnever := htally done done' (.cons hcase (.cons hcase .nil)) .strict .strict name name r r'
      hr hr'
    exact ⟨r, r', hr, hr', hzero, htwo, hnever.le (by decide +kernel)⟩

end EvaluationResult

end TypeBench
