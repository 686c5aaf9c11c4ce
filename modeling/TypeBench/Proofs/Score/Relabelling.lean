import Mathlib.Data.Set.Function
import TypeBench.Proofs.Evaluation.Success
import TypeBench.Proofs.Score.Totals

/-!
# Other labels

No label is special. A matching looks at keys alone, so with other labels the same predictions meet
the same entries. Labels that become one can only make more matches correct; and as long as the
labels that occur stay different, all counts are as before, and the maps have the new labels where
they had the old ones.

## Main definitions

* `TypePrediction.relabelled`, `GroundTruth.relabelled`, `CompletedCase.relabelled`: other labels.
* `MatchSet.relabelled`, `LabelMap.relabelled`, `EvaluationResult.relabelled`: what is made of them.
* `MatchSet.labelsOf`: the labels that occur.

## Main results

* `MatchSet.ofPredictions_relabelled`: the matching with other labels.
* `MatchSet.Accounts.scores_relabelled`: the scores, if different labels stay different.
* `EvaluationResult.ofPredictions_relabelled`: results with other labels.
-/

namespace TypeBench

open List

variable {f : Text → Text}

/-! ### Matchings -/

/-- A prediction of another label. -/
def TypePrediction.relabelled (f : Text → Text) (p : TypePrediction) : TypePrediction :=
  { p with label := f p.label }

/-- An entry with another label. -/
def GroundTruth.relabelled (f : Text → Text) (t : GroundTruth) : GroundTruth :=
  { t with label := f t.label }

namespace MatchSet

/-- A matching with other labels. -/
def relabelled (f : Text → Text) (m : MatchSet) : MatchSet :=
  m.map (·.relabelled f) (·.relabelled f)

/-- With other labels the same predictions meet the same entries. -/
theorem ofPredictions_relabelled (f : Text → Text) (ps : List TypePrediction)
    (ts : List GroundTruth) :
    ofPredictions (ps.map (·.relabelled f)) (ts.map (·.relabelled f)) =
      (ofPredictions ps ts).relabelled f := by
  have hkey (t : GroundTruth) (p : TypePrediction) :
      (t.relabelled f).key = (p.relabelled f).key ↔ t.key = p.key := Iff.rfl
  exact (run_iff.1 ((run_ofPredictions ps ts).map hkey)).symm

/-! ### Counts -/

theorem scoredLabels_relabelled (policy : ScoringPolicy) (m : MatchSet) :
    (m.relabelled f).scoredLabels policy = (m.scoredLabels policy).map f := by
  cases policy <;>
    simp [scoredLabels, relabelled, MatchSet.map, TypePrediction.relabelled, Function.comp_def]

theorem scoredCount_relabelled (policy : ScoringPolicy) (m : MatchSet) :
    (m.relabelled f).scoredCount policy = m.scoredCount policy := by
  cases policy <;> simp [scoredCount, relabelled, MatchSet.map]

/-- Equal labels stay equal, so a correct match stays correct. -/
theorem correctCount_le_relabelled (m : MatchSet) :
    m.correctCount ≤ (m.relabelled f).correctCount := by
  rw [correctCount, correctCount, relabelled, MatchSet.map, countP_map]
  refine countP_mono_left fun x _ hx => ?_
  exact decide_eq_true (congrArg f (of_decide_eq_true hx))

theorem additional_relabelled {R : Type} [Quantity R] (m : MatchSet) (ts : List GroundTruth) :
    (m.relabelled f).additional R (ts.map (·.relabelled f)) = m.additional R ts := by
  simp [additional, coverage, relabelled, MatchSet.map]

end MatchSet

/-! ### Maps of labels -/

namespace LabelMap

variable {R : Type}

/-- A map with other labels. -/
def relabelled (f : Text → Text) (map : LabelMap R) : LabelMap R :=
  map.map fun (label, value) => (f label, value)

theorem relabelled_keyed (labels : List Text) (value : Text → R) :
    relabelled f (labels.map fun label => (label, value label)) =
      labels.map fun label => (f label, value label) :=
  map_map

theorem names_relabelled (map : LabelMap R) :
    Named.names (map.relabelled f) = (Named.names map).map f := by
  rw [relabelled, Named.names, Named.names, map_map, map_map]
  rfl

variable {labels : List Text} (hf : Set.InjOn f {label | label ∈ labels})

include hf

/-- As long as labels stay different, a label has under its new name what it had. -/
theorem lookup_relabelled {map : LabelMap R} (hmap : Named.names map ⊆ labels) {label : Text}
    (hlabel : label ∈ labels) : (map.relabelled f).lookup (f label) = map.lookup label := by
  induction map with
  | nil => rfl
  | cons entry map ih =>
    obtain ⟨hfirst, hrest⟩ := cons_subset.1 hmap
    have hiff : f label = f entry.1 ↔ label = entry.1 := hf.eq_iff hlabel hfirst
    change List.lookup _ ((f entry.1, entry.2) :: relabelled f map) = _
    rw [Named.lookup_cons, ih hrest, Named.lookup_cons]
    simp only [hiff]

variable [Quantity R]

theorem shares_relabelled {correct scored : List Text} (hcorrect : correct ⊆ labels)
    (hscored : scored ⊆ labels) :
    shares R (correct.map f) (scored.map f) = (shares R correct scored).relabelled f := by
  have hcount {items : List Text} (hitems : items ⊆ labels) {label : Text}
      (hlabel : label ∈ labels) : (items.map f).count (f label) = items.count label := by
    rw [count, count, countP_map]
    refine countP_congr fun item hitem => ?_
    simpa using hf.eq_iff (hitems hitem) hlabel
  rw [shares, eraseDups_map fun a ha b hb heq => hf (hscored ha) (hscored hb) heq, map_map, shares,
    relabelled_keyed]
  refine map_congr_left fun label hlabel => ?_
  have hmem : label ∈ labels := hscored (mem_eraseDups.1 hlabel)
  simp only [Function.comp_apply, hcount hcorrect hmem, hcount hscored hmem]

theorem harmonicMean_relabelled {precisions recalls : LabelMap R}
    (hprecisions : Named.names precisions ⊆ labels) (hrecalls : Named.names recalls ⊆ labels) :
    harmonicMean (precisions.relabelled f) (recalls.relabelled f) =
      (harmonicMean precisions recalls).relabelled f := by
  have hboth : Named.names precisions ++ Named.names recalls ⊆ labels :=
    append_subset.2 ⟨hprecisions, hrecalls⟩
  rw [harmonicMean, names_append, names_relabelled, names_relabelled, ← map_append,
    eraseDups_map fun a ha b hb heq => hf (hboth ha) (hboth hb) heq, map_map, harmonicMean,
    names_append, relabelled_keyed]
  refine map_congr_left fun label hlabel => ?_
  have hmem : label ∈ labels := hboth (mem_eraseDups.1 hlabel)
  simp only [Function.comp_apply, valueOf, lookup_relabelled hf hprecisions hmem,
    lookup_relabelled hf hrecalls hmem]

end LabelMap

/-! ### Scores -/

/-- A result with other labels. -/
def EvaluationResult.relabelled {R : Type} (f : Text → Text) (r : EvaluationResult R) :
    EvaluationResult R :=
  { r with
    predictions := r.predictions.map (·.relabelled f)
    precisions := r.precisions.relabelled f
    recalls := r.recalls.relabelled f
    means := r.means.relabelled f }

namespace MatchSet

/-- The labels that occur, predicted and verified. -/
def labelsOf (ps : List TypePrediction) (ts : List GroundTruth) : List Text :=
  ps.map (·.label) ++ ts.map (·.label)

variable {m : MatchSet} {ps : List TypePrediction} {ts : List GroundTruth}

/-- Only predicted labels count. -/
theorem Accounts.scoredLabels_subset (h : m.Accounts ps ts) (policy : ScoringPolicy) :
    m.scoredLabels policy ⊆ labelsOf ps ts := by
  have hscored : m.scored policy ⊆ ps := by
    refine Subset.trans ?_ h.predictions_perm.subset
    cases policy with
    | lenient => exact subset_append_left _ _
    | strict => exact Subset.refl _
  rw [scoredLabels_eq_map]
  exact Subset.trans (map_subset _ hscored) (subset_append_left _ _)

theorem Accounts.correctLabels_subset (h : m.Accounts ps ts) : m.correctLabels ⊆ labelsOf ps ts :=
  Subset.trans h.correctLabels_subset_truths (subset_append_right _ _)

section Injective

variable (h : m.Accounts ps ts) (hf : Set.InjOn f {label | label ∈ labelsOf ps ts})

include h hf

/-- If different labels stay different, the same matches are correct. -/
theorem Accounts.correctLabels_relabelled :
    (m.relabelled f).correctLabels = m.correctLabels.map f := by
  have hpredicted : m.found.map (·.prediction) ⊆ ps :=
    Subset.trans (subset_append_left _ _) h.predictions_perm.subset
  have hverified : m.found.map (·.truth) ⊆ ts :=
    Subset.trans (subset_append_left _ _) h.truths_perm.subset
  rw [correctLabels, relabelled, MatchSet.map, filter_map, map_map, correctLabels, map_map]
  -- The labels that are compared both occur, so they become equal only if they are.
  refine congrArg (List.map _) (filter_congr fun x hx => ?_)
  have hprediction : x.prediction.label ∈ labelsOf ps ts :=
    mem_append_left _ (mem_map_of_mem (hpredicted (mem_map_of_mem hx)))
  have htruth : x.truth.label ∈ labelsOf ps ts :=
    mem_append_right _ (mem_map_of_mem (hverified (mem_map_of_mem hx)))
  exact decide_eq_decide.2 (hf.eq_iff hprediction htruth)

theorem Accounts.correctCount_relabelled : (m.relabelled f).correctCount = m.correctCount := by
  rw [← length_correctLabels, h.correctLabels_relabelled hf, length_map, length_correctLabels]

/-- If different labels stay different, the scores have new labels where they had the old ones. -/
theorem Accounts.scores_relabelled {R : Type} [Quantity R] (policy : ScoringPolicy) (name : Text)
    (time : R) :
    (m.relabelled f).scores policy name (ps.map (·.relabelled f)) (ts.map (·.relabelled f)) time =
      (m.scores policy name ps ts time).relabelled f := by
  have hprecisions : (m.relabelled f).precisions R policy =
      (m.precisions R policy).relabelled f := by
    rw [precisions_eq, h.correctLabels_relabelled hf, scoredLabels_relabelled, precisions_eq,
      LabelMap.shares_relabelled hf h.correctLabels_subset (h.scoredLabels_subset policy)]
  have hrecalls : (m.relabelled f).recalls R (ts.map (·.relabelled f)) =
      (m.recalls R ts).relabelled f := by
    have htruths : (ts.map (·.relabelled f)).map (·.label) = (ts.map (·.label)).map f := by
      rw [map_map, map_map]
      rfl
    rw [recalls, h.correctLabels_relabelled hf, htruths, recalls,
      LabelMap.shares_relabelled hf h.correctLabels_subset (subset_append_right _ _)]
  have hmeans : LabelMap.harmonicMean ((m.precisions R policy).relabelled f)
      ((m.recalls R ts).relabelled f) =
        (LabelMap.harmonicMean (m.precisions R policy) (m.recalls R ts)).relabelled f := by
    refine LabelMap.harmonicMean_relabelled hf (fun label hlabel => ?_) fun label hlabel => ?_
    · exact h.scoredLabels_subset policy (LabelMap.mem_names_shares.1 hlabel)
    · exact mem_append_right _ (LabelMap.mem_names_shares.1 hlabel)
  rw [scores, hprecisions, hrecalls, hmeans, accuracy, h.correctCount_relabelled hf,
    scoredCount_relabelled, additional_relabelled]
  rfl

end Injective

end MatchSet

/-! ### Labels that become one -/

/-- The counts and the accuracy of results where labels may have become one. -/
structure EvaluationResult.MergesTo (r r' : EvaluationResult ℚ) : Prop where
  correct_le : r.correct ≤ r'.correct
  accuracy_le : r.accuracy ≤ r'.accuracy
  total_eq : r'.total = r.total
  additional_eq : r'.additional = r.additional

/-- Whatever the labels become, no prediction that was correct is lost. -/
theorem MatchSet.mergesTo_relabelled (m : MatchSet) (policy : ScoringPolicy) (name : Text)
    (ps : List TypePrediction) (ts : List GroundTruth) (time : ℚ) :
    (m.scores policy name ps ts time).MergesTo
      ((m.relabelled f).scores policy name (ps.map (·.relabelled f)) (ts.map (·.relabelled f))
        time) where
  correct_le := m.correctCount_le_relabelled
  accuracy_le := by
    have hcorrect : (m.correctCount : ℚ) ≤ (m.relabelled f).correctCount :=
      Nat.cast_le.2 m.correctCount_le_relabelled
    change m.accuracy ℚ policy ≤ (m.relabelled f).accuracy ℚ policy
    rw [accuracy, accuracy, scoredCount_relabelled, Exact.ratio_eq, Exact.ratio_eq]
    exact div_le_div_of_nonneg_right hcorrect (Nat.cast_nonneg _)
  total_eq := m.scoredCount_relabelled policy
  additional_eq := m.additional_relabelled ts

namespace MatchSet

variable {m : MatchSet} {ps : List TypePrediction} {ts : List GroundTruth}

theorem Accounts.relabelled (h : m.Accounts ps ts) :
    (m.relabelled f).Accounts (ps.map (·.relabelled f)) (ts.map (·.relabelled f)) where
  predictions_perm := by
    have hall := h.predictions_perm.map (·.relabelled f)
    rw [map_append, map_map] at hall
    rwa [MatchSet.relabelled, MatchSet.map, map_map]
  truths_perm := by
    have hall := h.truths_perm.map (·.relabelled f)
    rw [map_append, map_map] at hall
    rwa [MatchSet.relabelled, MatchSet.map, map_map]
  keys_eq := forall_mem_map.2 h.keys_eq

/-- A result with labels that may have become one is accepted as the one without them. -/
theorem Accounts.exists_mergesTo (h : m.Accounts ps ts) (f : Text → Text) {policy : ScoringPolicy}
    {name : Text} {time : ℚ} {r : EvaluationResult ℚ}
    (hr : m.result policy name ps ts time = .ok r) :
    ∃ r', (m.relabelled f).result policy name (ps.map (·.relabelled f)) (ts.map (·.relabelled f))
      time = .ok r' ∧ r.MergesTo r' := by
  have hbounds := EvaluationResult.keepsBounds_of_accept hr
  have htime : 0 ≤ time := Exact.zero_eq ▸ Exact.le_iff.1 hbounds.zero_le_time
  have hrelabelled := ((h.relabelled (f := f)).withinBounds policy name time).keepsBounds
    hbounds.approach_ne_nil hbounds.hasSurrogate_eq_false htime
  refine ⟨_, EvaluationResult.accept_of_keepsBounds hrelabelled, ?_⟩
  rw [EvaluationResult.eq_of_accept hr]
  exact m.mergesTo_relabelled ..

/-- If different labels stay different, a result has new labels where it had the old ones. -/
theorem Accounts.result_relabelled (h : m.Accounts ps ts)
    (hf : Set.InjOn f {label | label ∈ labelsOf ps ts}) {R : Type} [Quantity R]
    (policy : ScoringPolicy) (name : Text) (time : R) :
    (m.relabelled f).result policy name (ps.map (·.relabelled f)) (ts.map (·.relabelled f)) time =
      (m.result policy name ps ts time).map (.relabelled f) := by
  rw [result, h.scores_relabelled hf]
  exact EvaluationResult.accept_map rfl rfl rfl

end MatchSet

/-! ### Test cases -/

/-- A test case with other labels. -/
def CompletedCase.relabelled {R : Type} (f : Text → Text) (c : CompletedCase R) :
    CompletedCase R where
  case := { c.case with truths := c.case.truths.map (·.relabelled f) }
  predictions := c.predictions.map (·.relabelled f)
  time := c.time

theorem MatchSet.concat_relabelled (ms : List MatchSet) :
    concat (ms.map (·.relabelled f)) = (concat ms).relabelled f := by
  induction ms with
  | nil => rfl
  | cons m ms ih =>
    rw [List.map_cons, concat_cons, ih, concat_cons]
    simp only [merge, relabelled, MatchSet.map, map_append]

namespace CaseTally

variable {R : Type} [Quantity R]

/-- What is collected, with other labels. -/
def relabelled (f : Text → Text) (t : CaseTally R) : CaseTally R where
  predictions := t.predictions.map (·.relabelled f)
  truths := t.truths.map (·.relabelled f)
  matching := t.matching.relabelled f
  time := t.time

/-- Over test cases with other labels the same is collected, with other labels. -/
theorem addAll_relabelled (f : Text → Text) (done : List (CompletedCase R)) :
    CaseTally.empty.addAll (done.map (·.relabelled f)) =
      (CaseTally.empty.addAll done).relabelled f := by
  have hmatching : (done.map (·.relabelled f)).map (·.matching) =
      (done.map (·.matching)).map (·.relabelled f) := by
    rw [map_map, map_map]
    exact map_congr_left fun c _ =>
      MatchSet.ofPredictions_relabelled f c.predictions c.case.truths
  rw [addAll_eq, addAll_eq, relabelled, hmatching, MatchSet.concat_relabelled, foldl_map,
    flatMap_map, flatMap_map, map_append, map_append, map_flatMap, map_flatMap]
  rfl

theorem exists_mergesTo {done : List (CompletedCase ℚ)} (f : Text → Text) {policy : ScoringPolicy}
    {name : Text} {r : EvaluationResult ℚ}
    (hr : (CaseTally.empty.addAll done).score policy name = .ok r) :
    ∃ r', (CaseTally.empty.addAll (done.map (·.relabelled f))).score policy name = .ok r' ∧
      r.MergesTo r' := by
  have haccounts := accounts_addAll done
  rw [← predictions_addAll, ← truths_addAll] at haccounts
  obtain ⟨r', hr', hmerges⟩ := haccounts.exists_mergesTo f (eq_ok_of_mapError_eq_ok hr)
  refine ⟨r', ?_, hmerges⟩
  rw [addAll_relabelled]
  exact congrArg (Except.mapError _) hr'

theorem score_relabelled {done : List (CompletedCase R)}
    (hf : Set.InjOn f {label | label ∈ MatchSet.labelsOf (done.flatMap (·.predictions))
      (done.flatMap (·.case.truths))}) (policy : ScoringPolicy) (name : Text) :
    (CaseTally.empty.addAll (done.map (·.relabelled f))).score policy name =
      ((CaseTally.empty.addAll done).score policy name).map (.relabelled f) := by
  have haccounts := accounts_addAll done
  rw [← predictions_addAll, ← truths_addAll] at haccounts hf
  rw [addAll_relabelled]
  exact (congrArg (Except.mapError _) (haccounts.result_relabelled hf ..)).trans (mapError_map ..)

end CaseTally

namespace EvaluationResult

/-- **Other labels.** With other labels the same predictions meet the same entries, and the same are
left over. In exact numbers the correct predictions and the accuracy do not fall, whatever the
labels become. If the labels that occur stay different, a result is the one it was, with new labels
where it had the old ones. The same holds over test cases. -/
theorem ofPredictions_of_other_labels (f : Text → Text) :
    (∀ (ps : List TypePrediction) (ts : List GroundTruth),
      MatchSet.ofPredictions (ps.map (·.relabelled f)) (ts.map (·.relabelled f)) =
          (MatchSet.ofPredictions ps ts).relabelled f ∧
        (∀ (policy : ScoringPolicy) (name : Text) (time : ℚ) (r : EvaluationResult ℚ),
          ofPredictions policy name ps ts time = .ok r →
            ∃ r', ofPredictions policy name (ps.map (·.relabelled f))
              (ts.map (·.relabelled f)) time = .ok r' ∧ r.MergesTo r') ∧
        (Set.InjOn f {label | label ∈ MatchSet.labelsOf ps ts} →
          ∀ (R : Type) [Quantity R] (policy : ScoringPolicy) (name : Text) (time : R),
            ofPredictions policy name (ps.map (·.relabelled f)) (ts.map (·.relabelled f)) time =
              (ofPredictions policy name ps ts time).map (relabelled f))) ∧
    (∀ (done : List (CompletedCase ℚ)) (policy : ScoringPolicy) (name : Text)
      (r : EvaluationResult ℚ), (CaseTally.empty.addAll done).score policy name = .ok r →
        ∃ r', (CaseTally.empty.addAll (done.map (·.relabelled f))).score policy name = .ok r' ∧
          r.MergesTo r') ∧
    ∀ (R : Type) [Quantity R] (done : List (CompletedCase R)),
      Set.InjOn f {label | label ∈ MatchSet.labelsOf (done.flatMap (·.predictions))
        (done.flatMap (·.case.truths))} →
      ∀ (policy : ScoringPolicy) (name : Text),
        (CaseTally.empty.addAll (done.map (·.relabelled f))).score policy name =
          ((CaseTally.empty.addAll done).score policy name).map (relabelled f) := by
  refine ⟨fun ps ts => ?_, fun done policy name r hr => CaseTally.exists_mergesTo f hr,
    fun R _ done hf policy name => CaseTally.score_relabelled hf policy name⟩
  have haccounts := MatchSet.accounts_ofPredictions ps ts
  have hmatching := MatchSet.ofPredictions_relabelled f ps ts
  refine ⟨hmatching, fun policy name time r hr => ?_, fun hf R _ policy name time => ?_⟩
  · rw [ofPredictions, hmatching]
    exact haccounts.exists_mergesTo f hr
  · rw [ofPredictions, hmatching]
    exact haccounts.result_relabelled hf policy name time

/-- Three predictions of one key with two entries, as a test case. -/
def guessedExactly : CompletedCase ℚ where
  case := MatchSet.guessedCase.case
  predictions := MatchSet.threeGuesses
  time := 1

/-- With one label for all a wrong match becomes correct. With another label for one of two, which
would be the same for others that do not occur, a result has it in the place of the old one. -/
theorem ofPredictions_of_other_labels_threeGuesses :
    let number := Text.ofString "number"
    let string := Text.ofString "string"
    let any : Text → Text := fun _ => string
    let other : Text → Text := fun label => if label = string then Text.ofString "str" else label
    let ps := MatchSet.threeGuesses
    let ts := MatchSet.threeEntries
    let name := Text.ofString "guesser"
    (∃ r r' : EvaluationResult ℚ, ofPredictions .strict name ps ts 1 = .ok r ∧
      ofPredictions .strict name (ps.map (·.relabelled any)) (ts.map (·.relabelled any)) 1 =
        .ok r' ∧
      r.MergesTo r' ∧ r.accuracy = 1 / 3 ∧ r'.accuracy = 2 / 3) ∧
    (∃ r : EvaluationResult ℚ, ofPredictions .strict name (ps.map (·.relabelled other))
        (ts.map (·.relabelled other)) 1 = .ok (r.relabelled other) ∧
      ofPredictions .strict name ps ts 1 = .ok r ∧ Named.names r.precisions = [number, string]) ∧
    (∃ r r' : EvaluationResult ℚ,
      (CaseTally.empty.addAll [guessedExactly]).score .strict name = .ok r ∧
      (CaseTally.empty.addAll [guessedExactly.relabelled any]).score .strict name = .ok r' ∧
      r.MergesTo r') ∧
    ∃ r : EvaluationResult ℚ,
      (CaseTally.empty.addAll [guessedExactly]).score .strict name = .ok r ∧
      (CaseTally.empty.addAll [guessedExactly.relabelled other]).score .strict name =
        .ok (r.relabelled other) := by
  intro number string any other ps ts name
  have hdifferent : ∀ a ∈ MatchSet.labelsOf ps ts, ∀ b ∈ MatchSet.labelsOf ps ts,
      other a = other b → a = b := by decide +kernel
  have hother : Set.InjOn other {label | label ∈ MatchSet.labelsOf ps ts} :=
    fun a ha b hb heq => hdifferent a ha b hb heq
  have hscores : (ofPredictions .strict name ps ts (1 : ℚ)).map
      (fun r => (r.accuracy, Named.names r.precisions)) = .ok (1 / 3, [number, string]) := by
    decide +kernel
  have haccuracy : (ofPredictions .strict name (ps.map (·.relabelled any))
      (ts.map (·.relabelled any)) (1 : ℚ)).map (·.accuracy) = .ok (2 / 3) := by decide +kernel
  have htotal : ((CaseTally.empty.addAll [guessedExactly]).score .strict name).map (·.total) =
      .ok 3 := by decide +kernel
  obtain ⟨tally, htally, -⟩ := exists_of_map_eq_ok htotal
  obtain ⟨r, hr, hscores⟩ := exists_of_map_eq_ok hscores
  obtain ⟨hthird, hlabels⟩ := Prod.mk.inj hscores
  obtain ⟨hmerged, hmergedCases, -⟩ := ofPredictions_of_other_labels any
  obtain ⟨hrenamed, -, hrenamedCases⟩ := ofPredictions_of_other_labels other
  refine ⟨?_, ?_, ?_, ?_⟩
  · obtain ⟨r', hr', hmerges⟩ := (hmerged ps ts).2.1 .strict name 1 r hr
    obtain ⟨r'', hr'', htwo⟩ := exists_of_map_eq_ok haccuracy
    obtain rfl := Except.ok.inj (hr'.symm.trans hr'')
    exact ⟨r, r', hr, hr', hmerges, hthird, htwo⟩
  · refine ⟨r, ?_, hr, hlabels⟩
    rw [(hrenamed ps ts).2.2 hother, hr]
    rfl
  · obtain ⟨r', hr', hmerges⟩ := hmergedCases [guessedExactly] .strict name tally htally
    exact ⟨tally, r', htally, hr', hmerges⟩
  · refine ⟨tally, htally, (hrenamedCases ℚ [guessedExactly] ?_ .strict name).trans ?_⟩
    · rw [flatMap_singleton, flatMap_singleton]
      exact hother
    · rw [htally]
      rfl

end EvaluationResult

end TypeBench
