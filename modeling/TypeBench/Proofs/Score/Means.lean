import TypeBench.Proofs.Score.Totals

/-!
# Harmonic means of results

The harmonic means of a result are computed from its finished precisions and recalls, in which a
label may be missing on one side. They are nevertheless quotients of counts: the correct matches of
a label are those of its precision as well as those of its recall, so that the harmonic mean has
twice their number over the predictions that count and the entries of the ground truth together. A
label that is missing on one side has no correct matches, and zero.

## Main definitions

* `MatchSet.correctOf`: the correct matches of a label.
* `EvaluationResult.HasMeans`: values, bounds and labels of the harmonic means of a result.

## Main results

* `MatchSet.valueOf_precisions`, `MatchSet.valueOf_recalls`: precision and recall as quotients.
* `MatchSet.Accounts.hasMeans`: the means of a matching that accounts for both lists.
* `Bench.evaluate_means`: the means of results over source units, test cases and evaluations.
-/

namespace TypeBench

namespace MatchSet

variable {m : MatchSet} {predictions : List TypePrediction} {truths : List GroundTruth}

/-! ### Precision and recall -/

/-- The number of correct matches of a label. -/
def correctOf (m : MatchSet) (label : Text) : Nat :=
  m.found.countP fun x => x.isCorrect ∧ x.truth.label = label

theorem count_correctLabels (m : MatchSet) (label : Text) :
    m.correctLabels.count label = m.correctOf label := by
  rw [correctLabels, List.count, List.countP_map, List.countP_filter, correctOf]
  refine List.countP_congr fun x _ => ?_
  simp [and_comm]

theorem valueOf_precisions (m : MatchSet) (policy : ScoringPolicy) (label : Text) :
    (m.precisions ℚ policy).valueOf label =
      m.correctOf label / ((m.scored policy).map (·.label)).count label := by
  rw [precisions_eq_shares, LabelMap.valueOf_shares, count_correctLabels]

theorem valueOf_recalls (m : MatchSet) (truths : List GroundTruth) (label : Text) :
    (m.recalls ℚ truths).valueOf label =
      m.correctOf label / (truths.map (·.label)).count label := by
  rw [recalls, LabelMap.valueOf_shares, count_correctLabels]

theorem correctOf_le_scored (m : MatchSet) (policy : ScoringPolicy) (label : Text) :
    m.correctOf label ≤ ((m.scored policy).map (·.label)).count label := by
  rw [← count_correctLabels, ← scoredLabels_eq_map]
  exact m.count_correctLabels_le_scored policy label

theorem Accounts.correctOf_le_truths (h : m.Accounts predictions truths) (label : Text) :
    m.correctOf label ≤ (truths.map (·.label)).count label := by
  rw [← count_correctLabels]
  exact h.count_correctLabels_le_truths label

end MatchSet

/-! ### Means -/

/-- The harmonic means of a result, made of a matching under a policy: those of the labels of its
precisions and recalls are quotients of counts. They lie between precision and recall, and the
labels come in the order of the predictions that count and then of the ground truth. -/
structure EvaluationResult.HasMeans (r : EvaluationResult ℚ) (m : MatchSet)
    (policy : ScoringPolicy) (truths : List GroundTruth) : Prop where
  lookup_means : ∀ label ∈ Named.names r.precisions ++ Named.names r.recalls,
    r.means.lookup label = some (2 * (m.correctOf label : ℚ) /
      (((m.scored policy).map (·.label)).count label + (truths.map (·.label)).count label))
  min_le : ∀ label,
    min (r.precisions.valueOf label) (r.recalls.valueOf label) ≤ r.means.valueOf label
  le_max : ∀ label,
    r.means.valueOf label ≤ max (r.precisions.valueOf label) (r.recalls.valueOf label)
  le_mean : ∀ label,
    r.means.valueOf label ≤ (r.precisions.valueOf label + r.recalls.valueOf label) / 2
  eq_zero_iff : ∀ label, r.means.valueOf label = 0 ↔
    r.precisions.valueOf label = 0 ∨ r.recalls.valueOf label = 0
  names_means : Named.names r.means = Named.names r.precisions ++
    (Named.names r.recalls).filter fun label => label ∉ Named.names r.precisions
  precisions_inFirstOrder :
    InFirstOrder (Named.names r.precisions) ((m.scored policy).map (·.label))
  recalls_inFirstOrder : InFirstOrder (Named.names r.recalls) (truths.map (·.label))

/-- The scores of a matching that accounts for both lists have their means. -/
theorem MatchSet.Accounts.hasMeans {m : MatchSet} {predictions : List TypePrediction}
    {truths : List GroundTruth} (h : m.Accounts predictions truths) (policy : ScoringPolicy)
    (name : Text) (time : ℚ) :
    (m.scores policy name predictions truths time).HasMeans m policy truths := by
  -- Precision and recall of any label are shares, whether it is in the maps or not.
  have hprecision (label : Text) : 0 ≤ (m.precisions ℚ policy).valueOf label :=
    LabelMap.valueOf_shares_nonneg _ _ _
  have hrecall (label : Text) : 0 ≤ (m.recalls ℚ truths).valueOf label :=
    LabelMap.valueOf_shares_nonneg _ _ _
  have hmean (label : Text) :
      (m.scores policy name predictions truths time).means.valueOf label =
        Quantity.harmonicMean ((m.precisions ℚ policy).valueOf label)
          ((m.recalls ℚ truths).valueOf label) :=
    LabelMap.valueOf_harmonicMean _ _ label
  refine {
    lookup_means := fun label hlabel => ?_
    min_le := fun label => ?_
    le_max := fun label => ?_
    le_mean := fun label => ?_
    eq_zero_iff := fun label => ?_
    names_means := ?_
    precisions_inFirstOrder := ?_
    recalls_inFirstOrder := LabelMap.inFirstOrder_shares _ _ }
  · refine (LabelMap.lookup_harmonicMean _ _ label).trans ((if_pos hlabel).trans ?_)
    rw [m.valueOf_precisions, m.valueOf_recalls,
      Exact.harmonicMean_shares (m.correctOf_le_scored policy label) (h.correctOf_le_truths label)]
  · rw [hmean]
    exact Exact.min_le_harmonicMean (hprecision label) (hrecall label)
  · rw [hmean]
    exact Exact.harmonicMean_le_max (hprecision label) (hrecall label)
  · rw [hmean]
    exact Exact.harmonicMean_le_mean (hprecision label) (hrecall label)
  · rw [hmean]
    exact Exact.harmonicMean_eq_zero_iff (hprecision label) (hrecall label)
  · exact LabelMap.names_harmonicMean (LabelMap.nodup_names_shares _ _)
      (LabelMap.nodup_names_shares _ _)
  · rw [← scoredLabels_eq_map]
    exact LabelMap.inFirstOrder_shares _ _

theorem CaseTally.hasMeans_addAll (done : List (CompletedCase ℚ)) (policy : ScoringPolicy)
    (name : Text) :
    ((CaseTally.empty.addAll done).scores policy name).HasMeans
      (CaseTally.empty.addAll done).matching policy (done.flatMap (·.case.truths)) := by
  rw [scores_addAll]
  exact (accounts_addAll done).hasMeans policy name _

namespace Bench

/-- **Harmonic means.** With exact numbers the harmonic means of every result are quotients of
counts and lie between precision and recall: over one source unit, over any test cases, and in the
results of evaluations. -/
theorem evaluate_means :
    (∀ (policy : ScoringPolicy) (name : Text) (predictions : List TypePrediction)
      (truths : List GroundTruth) (time : ℚ) (r : EvaluationResult ℚ),
      EvaluationResult.ofPredictions policy name predictions truths time = .ok r →
        r.HasMeans (.ofPredictions predictions truths) policy truths) ∧
    (∀ (done : List (CompletedCase ℚ)) (policy : ScoringPolicy) (name : Text)
      (r : EvaluationResult ℚ), (CaseTally.empty.addAll done).score policy name = .ok r →
        r.HasMeans (CaseTally.empty.addAll done).matching policy
          (done.flatMap (·.case.truths))) ∧
    ∀ (A : Type) [Approach A] (bench : Bench A) (world : World ℚ) (name : Text)
      (cases : List TestCase) (options : Options) (r : EvaluationResult ℚ),
      (bench.evaluate world name cases options).outcome = .ok r →
        ∃ (registration : Registration A) (done : List (CompletedCase ℚ)) (a : A)
          (clock : Clock ℚ), bench.find? name = some registration ∧
            CourseRun bench.policy name cases options registration.approach world.clock
              ⟨done, none, .ok r⟩ a clock ∧
            done.map (·.case) = cases ∧
            r.HasMeans (CaseTally.empty.addAll done).matching bench.policy
              (cases.flatMap (·.truths)) := by
  refine ⟨fun policy name predictions truths time r h => ?_, fun done policy name r h => ?_,
    fun A _ bench world name cases options r hr => ?_⟩
  · rw [EvaluationResult.eq_of_accept h]
    exact (MatchSet.accounts_ofPredictions predictions truths).hasMeans policy name time
  · rw [CaseTally.scores_of_score h]
    exact CaseTally.hasMeans_addAll done policy name
  · obtain ⟨registration, done, a, clock, hfind, hcourse, rfl, rfl⟩ := evaluate_scored hr
    refine ⟨registration, done, a, clock, hfind, hcourse, rfl, ?_⟩
    rw [List.flatMap_map]
    exact CaseTally.hasMeans_addAll done bench.policy name

/-- One of three predictions has the label of its entry, over a source unit and in an evaluation. -/
theorem evaluate_means_wavering :
    (∃ r : EvaluationResult ℚ,
      EvaluationResult.ofPredictions .lenient wavering.name MatchSet.threeGuesses
        MatchSet.threeEntries 0 = .ok r ∧
      r.means = [(Text.ofString "number", 0), (Text.ofString "string", 2 / 3)] ∧
      r.HasMeans (.ofPredictions MatchSet.threeGuesses MatchSet.threeEntries) .lenient
        MatchSet.threeEntries) ∧
    ∃ (r : EvaluationResult ℚ) (done : List (CompletedCase ℚ)),
      (((Bench.empty .strict).add wavering).evaluate pausingWorld wavering.name sharedPlace
        []).outcome = .ok r ∧
      (CaseTally.empty.addAll done).score .strict wavering.name = .ok r ∧
      done.map (·.case) = sharedPlace ∧
      r.means = [(Text.ofString "string", 2 / 3), (Text.ofString "number", 0)] ∧
      r.HasMeans (CaseTally.empty.addAll done).matching .strict
        (done.flatMap (·.case.truths)) ∧
      r.HasMeans (CaseTally.empty.addAll done).matching .strict
        (sharedPlace.flatMap (·.truths)) := by
  obtain ⟨hunit, hscore, hevaluate⟩ := evaluate_means
  constructor
  · have hmeans : (EvaluationResult.ofPredictions .lenient wavering.name MatchSet.threeGuesses
        MatchSet.threeEntries (0 : ℚ)).map (·.means) =
          .ok [(Text.ofString "number", 0), (Text.ofString "string", 2 / 3)] := by decide +kernel
    obtain ⟨r, houtcome, hvalues⟩ := exists_of_map_eq_ok hmeans
    exact ⟨r, houtcome, hvalues, hunit _ _ _ _ _ r houtcome⟩
  · have hmeans : (((Bench.empty .strict).add wavering).evaluate pausingWorld wavering.name
        sharedPlace []).outcome.map (·.means) =
          .ok [(Text.ofString "string", 2 / 3), (Text.ofString "number", 0)] := by decide +kernel
    obtain ⟨r, houtcome, hvalues⟩ := exists_of_map_eq_ok hmeans
    obtain ⟨_, done, _, _, -, hcourse, hcases, hr⟩ := hevaluate Script _ _ _ _ _ r houtcome
    obtain ⟨-, hscored⟩ := hcourse.score_of_ok
    exact ⟨r, done, houtcome, hscored, hcases, hvalues, hscore _ _ _ r hscored, hr⟩

end Bench

end TypeBench
