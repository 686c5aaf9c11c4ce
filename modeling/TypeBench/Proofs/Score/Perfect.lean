import TypeBench.Proofs.Score.Bounds
import TypeBench.Proofs.Score.LabelMaps

/-!
# Perfect scores

Accuracy and coverage are both one, under the strict policy and with exact numbers, only if nothing
is left over in the matching and all its matches are correct. Since every test case is matched on
its own, each of them then has the predictions that its ground truth asks for, as many times as it
does. If no test case asks twice for one key, such predictions are also enough, and every other
metric is one as well, under either policy.

## Main definitions

* `LabelMap.IsOneOn`: a map to one of some labels and no others.
* `TypePrediction.labelled`, `GroundTruth.labelled`: a key with its label.
* `CompletedCase.IsExact`: the predictions for a test case are those that it asks for.
* `MatchSet.IsPerfect`, `EvaluationResult.IsPerfect`: perfect matchings and perfect scores.

## Main results

* `MatchSet.Accounts.isPerfect_iff`: accuracy and coverage are one for perfect matchings.
* `CompletedCase.isExact_of_isPerfect`, `CompletedCase.isPerfect_of_isExact`: perfect matchings and
  exact predictions.
* `Bench.evaluate_perfect`: perfect scores of evaluations.
-/

namespace TypeBench

open List

/-! ### Maps to one -/

namespace LabelMap

/-- A map has one for each of these labels, and no other labels. -/
def IsOneOn (map : LabelMap ℚ) (labels : List Text) : Prop :=
  (∀ label ∈ labels, map.lookup label = some 1) ∧ ∀ label, label ∉ labels → map.lookup label = none

theorem isOneOn_iff {map : LabelMap ℚ} {labels : List Text} :
    map.IsOneOn labels ↔ ∀ label, map.lookup label = if label ∈ labels then some 1 else none := by
  constructor
  · rintro ⟨hone, hnone⟩ label
    split_ifs with hlabel
    · exact hone label hlabel
    · exact hnone label hlabel
  · intro h
    exact ⟨fun label hlabel => (h label).trans (if_pos hlabel),
      fun label hlabel => (h label).trans (if_neg hlabel)⟩

theorem isOneOn_keyed {labels : List Text} {value : Text → ℚ}
    (h : ∀ label ∈ labels, value label = 1) :
    IsOneOn (labels.eraseDups.map fun l => (l, value l)) labels := by
  refine isOneOn_iff.2 fun label => ?_
  rw [lookup_keyed]
  by_cases hlabel : label ∈ labels
  · rw [if_pos (mem_eraseDups.2 hlabel), if_pos hlabel, h label hlabel]
  · rw [if_neg (mt mem_eraseDups.1 hlabel), if_neg hlabel]

/-- All of the labels are correct. -/
theorem isOneOn_shares {correct labels : List Text} (h : correct ~ labels) :
    (LabelMap.shares ℚ correct labels).IsOneOn labels := by
  refine isOneOn_keyed fun label hlabel => ?_
  rw [h.count_eq, Exact.ratio_eq_one_iff]
  exact ⟨rfl, (count_pos_iff.2 hlabel).ne'⟩

namespace IsOneOn

variable {map precisions recalls : LabelMap ℚ} {labels others : List Text}

theorem congr (h : map.IsOneOn labels) (hsame : ∀ label, label ∈ labels ↔ label ∈ others) :
    map.IsOneOn others := by
  obtain ⟨hone, hnone⟩ := h
  exact ⟨fun label hlabel => hone label ((hsame label).2 hlabel),
    fun label hlabel => hnone label (mt (hsame label).1 hlabel)⟩

theorem valueOf_eq (h : map.IsOneOn labels) {label : Text} (hlabel : label ∈ labels) :
    map.valueOf label = 1 := by
  rw [valueOf, h.1 label hlabel]
  rfl

theorem mem_names_iff (h : map.IsOneOn labels) (label : Text) :
    label ∈ Named.names map ↔ label ∈ labels := by
  rw [Named.mem_names_iff, isOneOn_iff.1 h label]
  by_cases hlabel : label ∈ labels
  · simp [hlabel]
  · simp [hlabel]

/-- The harmonic mean of one and one is one. -/
theorem harmonicMean (hprecisions : precisions.IsOneOn labels) (hrecalls : recalls.IsOneOn labels) :
    (LabelMap.harmonicMean precisions recalls).IsOneOn labels := by
  have hsame (label : Text) :
      label ∈ Named.names (precisions ++ recalls) ↔ label ∈ labels := by
    rw [Named.names, map_append, mem_append]
    exact (or_congr (hprecisions.mem_names_iff label) (hrecalls.mem_names_iff label)).trans
      (or_self_iff)
  refine IsOneOn.congr (isOneOn_keyed fun label hlabel => ?_) hsame
  have hmem : label ∈ labels := (hsame label).1 hlabel
  rw [hprecisions.valueOf_eq hmem, hrecalls.valueOf_eq hmem, Exact.harmonicMean_one_one]

end IsOneOn

end LabelMap

/-! ### Perfect matchings -/

namespace MatchSet

/-- A matching leaves nothing over, and all its matches are correct. -/
structure IsPerfect (m : MatchSet) : Prop where
  unmatchedPredictions_eq : m.unmatchedPredictions = []
  unmatchedTruths_eq : m.unmatchedTruths = []
  isCorrect : ∀ x ∈ m.found, x.isCorrect = true

theorem isPerfect_merge_iff {a b : MatchSet} :
    (a.merge b).IsPerfect ↔ a.IsPerfect ∧ b.IsPerfect := by
  constructor
  · rintro ⟨hpredictions, htruths, hcorrect⟩
    obtain ⟨hpredictions₁, hpredictions₂⟩ := append_eq_nil_iff.1 hpredictions
    obtain ⟨htruths₁, htruths₂⟩ := append_eq_nil_iff.1 htruths
    obtain ⟨hcorrect₁, hcorrect₂⟩ := forall_mem_append.1 hcorrect
    exact ⟨⟨hpredictions₁, htruths₁, hcorrect₁⟩, ⟨hpredictions₂, htruths₂, hcorrect₂⟩⟩
  · rintro ⟨ha, hb⟩
    exact {
      unmatchedPredictions_eq :=
        append_eq_nil_iff.2 ⟨ha.unmatchedPredictions_eq, hb.unmatchedPredictions_eq⟩
      unmatchedTruths_eq := append_eq_nil_iff.2 ⟨ha.unmatchedTruths_eq, hb.unmatchedTruths_eq⟩
      isCorrect := forall_mem_append.2 ⟨ha.isCorrect, hb.isCorrect⟩ }

theorem isPerfect_concat_iff {ms : List MatchSet} :
    (concat ms).IsPerfect ↔ ∀ m ∈ ms, m.IsPerfect := by
  induction ms with
  | nil => exact ⟨fun _ m hm => absurd hm not_mem_nil, fun _ => ⟨rfl, rfl, nofun⟩⟩
  | cons m ms ih => rw [concat_cons, isPerfect_merge_iff, ih, forall_mem_cons]

variable {m : MatchSet} {predictions : List TypePrediction} {truths : List GroundTruth}

/-- Under the strict policy accuracy and coverage are one for perfect matchings, and no others. -/
theorem Accounts.isPerfect_iff (h : m.Accounts predictions truths) :
    m.accuracy ℚ .strict = 1 ∧ m.coverage ℚ truths = 1 ↔ m.IsPerfect ∧ truths ≠ [] := by
  have hfound := m.correctCount_le_found
  have htruths := h.balances.truths_length
  rw [accuracy, coverage, Exact.ratio_eq_one_iff, Exact.ratio_eq_one_iff, scoredCount]
  constructor
  · rintro ⟨⟨haccuracy, -⟩, hcoverage, hne⟩
    have hpredictions : m.unmatchedPredictions.length = 0 := by omega
    have hleft : m.unmatchedTruths.length = 0 := by omega
    have hall : m.found.countP TypeMatch.isCorrect = m.found.length := by
      change m.correctCount = _
      omega
    exact ⟨⟨length_eq_zero_iff.1 hpredictions, length_eq_zero_iff.1 hleft, countP_eq_length.1 hall⟩,
      fun hnil => hne (length_eq_zero_iff.2 hnil)⟩
  · rintro ⟨⟨hpredictions, hleft, hcorrect⟩, hne⟩
    have hall : m.correctCount = m.found.length := countP_eq_length.2 hcorrect
    have hlength : truths.length ≠ 0 := mt length_eq_zero_iff.1 hne
    rw [hleft, length_nil] at htruths
    rw [hpredictions, hleft, hall, length_nil, length_nil]
    omega

namespace IsPerfect

/-- All labels of a perfect matching are correct. -/
theorem correctLabels_eq (h : m.IsPerfect) : m.correctLabels = m.found.map (·.truth.label) := by
  rw [correctLabels, filter_eq_self.2 h.isCorrect]

theorem scoredLabels_eq (h : m.IsPerfect) (policy : ScoringPolicy) :
    m.scoredLabels policy = m.correctLabels := by
  have hfound : m.found.map (·.prediction.label) = m.correctLabels := by
    rw [← correctPredictedLabels_eq, correctPredictedLabels, filter_eq_self.2 h.isCorrect]
  cases policy with
  | lenient => exact (append_nil _).trans hfound
  | strict =>
    change m.found.map (·.prediction.label) ++ m.unmatchedPredictions.map (·.label) = _
    rw [h.unmatchedPredictions_eq, map_nil, append_nil, hfound]

theorem scoredCount_eq (h : m.IsPerfect) (policy : ScoringPolicy) :
    m.scoredCount policy = m.correctCount := by
  have hall : m.correctCount = m.found.length := countP_eq_length.2 h.isCorrect
  cases policy with
  | lenient => exact hall.symm
  | strict => rw [scoredCount, h.unmatchedPredictions_eq, hall, length_nil, Nat.add_zero]

theorem perm_labels (h : m.IsPerfect) (haccounts : m.Accounts predictions truths) :
    m.correctLabels ~ truths.map (·.label) := by
  have htruths := haccounts.truths_perm.map (·.label)
  rw [h.unmatchedTruths_eq, append_nil, map_map] at htruths
  rwa [h.correctLabels_eq]

end IsPerfect

end MatchSet

namespace EvaluationResult

/-- Nothing is left over, and all metrics are one: those of labels for these labels. -/
structure IsPerfect (r : EvaluationResult ℚ) (labels : List Text) : Prop where
  accuracy_eq : r.accuracy = 1
  coverage_eq : r.additional.lookup (Text.ofString "coverage") = some 1
  unmatched_predictions : r.additional.lookup (Text.ofString "unmatched_predictions") = some 0
  unmatched_truths : r.additional.lookup (Text.ofString "unmatched_ground_truth") = some 0
  precisions : r.precisions.IsOneOn labels
  recalls : r.recalls.IsOneOn labels
  means : r.means.IsOneOn labels

end EvaluationResult

/-- A perfect matching is scored perfectly, under either policy. -/
theorem MatchSet.IsPerfect.scores {m : MatchSet} {predictions : List TypePrediction}
    {truths : List GroundTruth} (h : m.IsPerfect) (haccounts : m.Accounts predictions truths)
    (hne : truths ≠ []) (policy : ScoringPolicy) (name : Text) (time : ℚ) :
    (m.scores policy name predictions truths time).IsPerfect (truths.map (·.label)) := by
  obtain ⟨haccuracy, hcoverage⟩ := haccounts.isPerfect_iff.2 ⟨h, hne⟩
  have hlabels := h.perm_labels haccounts
  have hprecisions : (m.precisions ℚ policy).IsOneOn (truths.map (·.label)) := by
    rw [precisions_eq, h.scoredLabels_eq]
    exact (LabelMap.isOneOn_shares (.refl _)).congr fun label => hlabels.mem_iff
  have hrecalls : (m.recalls ℚ truths).IsOneOn (truths.map (·.label)) :=
    LabelMap.isOneOn_shares hlabels
  have haccuracy' : m.accuracy ℚ policy = 1 := by
    rw [accuracy, h.scoredCount_eq] at haccuracy ⊢
    exact haccuracy
  have hcoverage' : (m.additional ℚ truths).lookup (Text.ofString "coverage") = some 1 :=
    congrArg some hcoverage
  have hpredictions :
      (m.additional ℚ truths).lookup (Text.ofString "unmatched_predictions") = some 0 := by
    change some (m.unmatchedPredictions.length : ℚ) = some 0
    rw [h.unmatchedPredictions_eq, length_nil, Nat.cast_zero]
  have htruths :
      (m.additional ℚ truths).lookup (Text.ofString "unmatched_ground_truth") = some 0 := by
    change some (m.unmatchedTruths.length : ℚ) = some 0
    rw [h.unmatchedTruths_eq, length_nil, Nat.cast_zero]
  exact ⟨haccuracy', hcoverage', hpredictions, htruths, hprecisions, hrecalls,
    hprecisions.harmonicMean hrecalls⟩

/-! ### Exact predictions -/

/-- The key of a prediction with its label. -/
def TypePrediction.labelled (p : TypePrediction) : MatchKey × Text := (p.key, p.label)

/-- The key of an entry with its label. -/
def GroundTruth.labelled (t : GroundTruth) : MatchKey × Text := (t.key, t.label)

namespace CompletedCase

/-- The predictions for a test case are those that its ground truth asks for, each of them as many
times as it does. -/
def IsExact {R : Type} (c : CompletedCase R) : Prop :=
  c.predictions.map (·.labelled) ~ c.case.truths.map (·.labelled)

variable {R : Type} {c : CompletedCase R}

/-- A perfect matching pairs each prediction with an entry of its key and its label. -/
theorem isExact_of_isPerfect (h : c.matching.IsPerfect) : c.IsExact := by
  have haccounts : c.matching.Accounts c.predictions c.case.truths :=
    MatchSet.accounts_ofPredictions _ _
  have hpredictions := haccounts.predictions_perm.map (·.labelled)
  have htruths := haccounts.truths_perm.map (·.labelled)
  rw [h.unmatchedPredictions_eq, append_nil, map_map] at hpredictions
  rw [h.unmatchedTruths_eq, append_nil, map_map] at htruths
  have hsame : c.matching.found.map ((·.labelled) ∘ (·.prediction)) =
      c.matching.found.map ((·.labelled) ∘ (·.truth)) := by
    refine map_congr_left fun x hx => ?_
    have hlabel : x.prediction.label = x.truth.label := of_decide_eq_true (h.isCorrect x hx)
    exact Prod.ext (haccounts.keys_eq x hx) hlabel
  rw [hsame] at hpredictions
  exact hpredictions.symm.trans htruths

/-- As many predictions of every key as entries leave nothing over. -/
theorem unmatched_eq_nil (h : c.predictions.map (·.key) ~ c.case.truths.map (·.key)) :
    c.matching.unmatchedPredictions = [] ∧ c.matching.unmatchedTruths = [] := by
  have hkeys : c.matching.found.map (·.prediction.key) ~ c.case.truths.map (·.key) := by
    refine perm_iff_count.2 fun key => ?_
    rw [matching, (MatchSet.run_ofPredictions _ _).count_found, h.count_eq, Nat.min_self]
  have hfound : c.matching.found.length = c.case.truths.length := by
    simpa using hkeys.length_eq
  have hsame : c.predictions.length = c.case.truths.length := by
    simpa using h.length_eq
  obtain ⟨hpredictions, htruths⟩ : c.matching.Balances c.predictions c.case.truths :=
    MatchSet.balances_ofPredictions _ _
  constructor
  · refine length_eq_zero_iff.1 ?_
    omega
  · refine length_eq_zero_iff.1 ?_
    omega

/-- If no key is asked for twice, exact predictions meet the entries of their labels. -/
theorem isPerfect_of_isExact (h : c.IsExact) (hnodup : (c.case.truths.map (·.key)).Nodup) :
    c.matching.IsPerfect := by
  have hkeys : c.predictions.map (·.key) ~ c.case.truths.map (·.key) := by
    have hfirst := h.map Prod.fst
    rwa [map_map, map_map] at hfirst
  obtain ⟨hpredictions, htruths⟩ := unmatched_eq_nil hkeys
  refine ⟨hpredictions, htruths, fun x hx => ?_⟩
  obtain ⟨hprediction, htruth⟩ := mem_of_mem_matching hx
  have hkey : x.prediction.key = x.truth.key :=
    (MatchSet.accounts_ofPredictions _ _).keys_eq x hx
  -- The entry that the prediction asks for is the one that it meets: they have the same key.
  obtain ⟨t, ht, hlabelled⟩ := mem_map.1 (h.subset (mem_map_of_mem hprediction))
  obtain ⟨hkey', hlabel⟩ := Prod.mk.inj hlabelled
  have hentry : t = x.truth := inj_on_of_nodup_map hnodup ht htruth (hkey'.trans hkey)
  subst hentry
  exact decide_eq_true hlabel.symm

end CompletedCase

/-! ### Scores over test cases -/

namespace CaseTally

variable {done : List (CompletedCase ℚ)} {policy : ScoringPolicy} {name : Text}

theorem isPerfect_addAll_iff :
    (CaseTally.empty.addAll done).matching.IsPerfect ↔ ∀ c ∈ done, c.matching.IsPerfect := by
  have hconcat : (CaseTally.empty.addAll done).matching = .concat (done.map (·.matching)) := by
    rw [addAll_eq]
    rfl
  rw [hconcat, MatchSet.isPerfect_concat_iff, forall_mem_map]

/-- Perfect accuracy and coverage under the strict policy mean exact predictions. -/
theorem isExact_of_score {r : EvaluationResult ℚ}
    (h : (CaseTally.empty.addAll done).score .strict name = .ok r) (haccuracy : r.accuracy = 1)
    (hcoverage : r.additional.lookup (Text.ofString "coverage") = some 1) :
    ∀ c ∈ done, c.IsExact := by
  obtain rfl := scores_of_score h
  have hshare : (CaseTally.empty.addAll done).matching.coverage ℚ
      (CaseTally.empty.addAll done).truths = 1 := Option.some.inj hcoverage
  rw [truths_addAll] at hshare
  obtain ⟨hperfect, -⟩ := (accounts_addAll done).isPerfect_iff.1 ⟨haccuracy, hshare⟩
  exact fun c hc => c.isExact_of_isPerfect (isPerfect_addAll_iff.1 hperfect c hc)

/-- Exact predictions for keys that are asked for once are scored perfectly. -/
theorem scores_isPerfect (hne : done.flatMap (·.case.truths) ≠ [])
    (hexact : ∀ c ∈ done, c.IsExact) (hnodup : ∀ c ∈ done, (c.case.truths.map (·.key)).Nodup) :
    ((CaseTally.empty.addAll done).scores policy name).IsPerfect
      ((done.flatMap (·.case.truths)).map (·.label)) := by
  have hperfect : (CaseTally.empty.addAll done).matching.IsPerfect :=
    isPerfect_addAll_iff.2 fun c hc => c.isPerfect_of_isExact (hexact c hc) (hnodup c hc)
  rw [scores_addAll]
  exact hperfect.scores (accounts_addAll done) hne policy name _

end CaseTally

/-! ### Evaluations -/

namespace Bench

/-- **Perfect scores.** With exact numbers, accuracy and coverage are both one under the strict
policy only if the predictions for every test case are those that its ground truth asks for.
Such predictions are scored perfectly under either policy if no test case asks twice for one key,
and there is some ground truth at all. The results of evaluations are such scores. -/
theorem evaluate_perfect :
    (∀ (done : List (CompletedCase ℚ)) (name : Text) (r : EvaluationResult ℚ),
      (CaseTally.empty.addAll done).score .strict name = .ok r → r.accuracy = 1 →
        r.additional.lookup (Text.ofString "coverage") = some 1 → ∀ c ∈ done, c.IsExact) ∧
    (∀ done : List (CompletedCase ℚ), done.flatMap (·.case.truths) ≠ [] →
      (∀ c ∈ done, c.IsExact) → (∀ c ∈ done, (c.case.truths.map (·.key)).Nodup) →
        ∀ (policy : ScoringPolicy) (name : Text),
          (∀ r, (CaseTally.empty.addAll done).score policy name = .ok r →
            r.IsPerfect ((done.flatMap (·.case.truths)).map (·.label))) ∧
          (name ≠ [] → name.hasSurrogate = false → 0 ≤ (CaseTally.empty.addAll done).time →
            ∃ r, (CaseTally.empty.addAll done).score policy name = .ok r)) ∧
    ∀ (A : Type) [Approach A] (bench : Bench A) (world : World ℚ) (name : Text)
      (cases : List TestCase) (options : Options) (r : EvaluationResult ℚ),
      (bench.evaluate world name cases options).outcome = .ok r →
        ∃ (registration : Registration A) (done : List (CompletedCase ℚ)) (a : A)
          (clock : Clock ℚ), bench.find? name = some registration ∧
            CourseRun bench.policy name cases options registration.approach world.clock
              ⟨done, none, .ok r⟩ a clock ∧
            done.map (·.case) = cases ∧
            (CaseTally.empty.addAll done).score bench.policy name = .ok r := by
  refine ⟨fun done name r h => CaseTally.isExact_of_score h, ?_, ?_⟩
  · intro done hne hexact hnodup policy name
    constructor
    · intro r hr
      obtain rfl := CaseTally.scores_of_score hr
      exact CaseTally.scores_isPerfect hne hexact hnodup
    · intro hname hsurrogate htime
      exact ⟨_, CaseTally.score_of_keepsBounds
        (CaseTally.keepsBounds_addAll policy hname hsurrogate htime)⟩
  · intro A _ bench world name cases options r hr
    obtain ⟨registration, done, a, clock, hfind, hcourse⟩ := evaluate_ok hr
    obtain ⟨hcases, hscore⟩ := hcourse.score_of_ok
    exact ⟨registration, done, a, clock, hfind, hcourse, hcases, hscore⟩

/-- An approach that knows the variables of the test cases that share a place. -/
def knowing : Script where
  name := Text.ofString "knowing"
  ready := .ok ()
  predictions _ file :=
    .ok [MatchSet.guess (if file = Text.ofString "c1" then "string" else "number")]
  done := .ok ()

/-- This approach is scored perfectly, so its predictions are exact; and they are scored perfectly
by the lenient policy, too. -/
theorem evaluate_perfect_sharedPlace :
    ∃ (r : EvaluationResult ℚ) (done : List (CompletedCase ℚ)),
      (((Bench.empty .strict).add knowing).evaluate pausingWorld knowing.name sharedPlace
        []).outcome = .ok r ∧
      r.accuracy = 1 ∧ done.map (·.case) = sharedPlace ∧ (∀ c ∈ done, c.IsExact) ∧
      r.IsPerfect [Text.ofString "string", Text.ofString "number"] ∧
      ∃ lenient : EvaluationResult ℚ,
        (CaseTally.empty.addAll done).score .lenient knowing.name = .ok lenient ∧
        lenient.IsPerfect [Text.ofString "string", Text.ofString "number"] := by
  obtain ⟨hexact, hperfect, hevaluate⟩ := evaluate_perfect
  have hmetrics : (((Bench.empty .strict).add knowing).evaluate pausingWorld knowing.name
      sharedPlace []).outcome.map (fun r => (r.accuracy, r.time,
        r.additional.lookup (Text.ofString "coverage"))) = .ok (1, 7, some 1) := by
    decide +kernel
  obtain ⟨r, houtcome, hvalues⟩ := exists_of_map_eq_ok hmetrics
  obtain ⟨haccuracy, hrest⟩ := Prod.mk.inj hvalues
  obtain ⟨htime, hcoverage⟩ := Prod.mk.inj hrest
  obtain ⟨-, done, -, -, -, -, hcases, hscore⟩ := hevaluate Script _ _ _ _ _ r houtcome
  have hdone := hexact done knowing.name r hscore haccuracy hcoverage
  have htruths : done.flatMap (·.case.truths) =
      [MatchSet.firstEntry "x" "string", MatchSet.firstEntry "x" "number"] :=
    calc done.flatMap (·.case.truths)
        = (done.map (·.case)).flatMap (·.truths) := (flatMap_map ..).symm
      _ = sharedPlace.flatMap (·.truths) := by rw [hcases]
      _ = [MatchSet.firstEntry "x" "string", MatchSet.firstEntry "x" "number"] := rfl
  have hnodup : ∀ c ∈ done, (c.case.truths.map (·.key)).Nodup := by
    have hall : ∀ case ∈ sharedPlace, (case.truths.map (·.key)).Nodup := by decide +kernel
    intro c hc
    exact hall c.case (hcases ▸ mem_map_of_mem hc)
  have hne : done.flatMap (·.case.truths) ≠ [] := htruths ▸ cons_ne_nil _ _
  have htally : 0 ≤ (CaseTally.empty.addAll done).time := by
    have hsame : (CaseTally.empty.addAll done).time = r.time := by
      rw [CaseTally.scores_of_score hscore]
      rfl
    rw [hsame, htime]
    decide
  obtain ⟨hstrict, -⟩ := hperfect done hne hdone hnodup .strict knowing.name
  obtain ⟨hlenient, hscored⟩ := hperfect done hne hdone hnodup .lenient knowing.name
  obtain ⟨lenient, hscore'⟩ := hscored (by decide +kernel) (by decide +kernel) htally
  rw [htruths] at hstrict hlenient
  exact ⟨r, done, houtcome, haccuracy, hcases, hdone, hstrict r hscore, lenient, hscore',
    hlenient lenient hscore'⟩

end Bench

end TypeBench
