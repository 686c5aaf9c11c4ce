import TypeBench.Approach.Scripted
import TypeBench.Proofs.Evaluation.Success
import TypeBench.Proofs.Matching.Grouping
import TypeBench.Proofs.Score.Labels

/-!
# Test cases as groups

An evaluation matches every test case on its own. It might as well put all predictions and all
ground truth together, once every identifier is marked with the number of its test case: no key is
then common to two test cases, and the scores are the same. So test cases never meet in a matching,
however many places they share.

## Main definitions

* `CompletedCase.matching`: the matching of one test case.
* `CaseTagging`: a way to mark identifiers with the number of a test case.
* `CaseTagging.predictions`, `CaseTagging.truths`, `CaseTagging.matching`: test cases put together.

## Main results

* `CaseTally.addAll_eq`: what is collected over test cases.
* `CaseTagging.run_tagged`: the matching of all test cases together is that of each.
* `CaseTagging.score_eq`: the score over test cases is that of all of them together.
* `Bench.evaluate_tagged`: the same of evaluations.
-/

namespace TypeBench

/-! ### What is collected -/

/-- The matching of a test case on its own. -/
def CompletedCase.matching {R : Type} (c : CompletedCase R) : MatchSet :=
  .ofPredictions c.predictions c.case.truths

/-- Over test cases their predictions, their ground truth and their matchings are collected, and the
times are added up. -/
theorem CaseTally.addAll_eq {R : Type} [Quantity R] (t : CaseTally R)
    (done : List (CompletedCase R)) :
    t.addAll done = ⟨t.predictions ++ done.flatMap (·.predictions),
      t.truths ++ done.flatMap (·.case.truths),
      t.matching.merge (.concat (done.map (·.matching))),
      done.foldl (fun time c => time + c.time) t.time⟩ := by
  induction done generalizing t with
  | nil =>
    rw [List.flatMap_nil, List.flatMap_nil, List.map_nil, MatchSet.concat_nil,
      MatchSet.merge_empty, List.append_nil, List.append_nil]
    rfl
  | cons first done ih =>
    change (t.add first.case first.predictions first.time).addAll done = _
    rw [ih, List.flatMap_cons, List.flatMap_cons, List.map_cons, MatchSet.concat_cons]
    simp only [CaseTally.add, List.append_assoc, MatchSet.merge_assoc, List.foldl_cons]
    rfl

/-! ### Labels -/

namespace MatchSet

theorem sameLabels_renamed (f : Text → Text) (m : MatchSet) : m.SameLabels (m.renamed f) := by
  refine ⟨?_, ?_, ?_⟩ <;> rw [renamed, List.map_map] <;> rfl

theorem SameLabels.merge {a b a' b' : MatchSet} (h : a.SameLabels a') (h' : b.SameLabels b') :
    (a.merge b).SameLabels (a'.merge b') := by
  refine ⟨?_, ?_, ?_⟩
  · rw [MatchSet.merge, MatchSet.merge, List.map_append, List.map_append, h.found, h'.found]
  · rw [MatchSet.merge, MatchSet.merge, List.map_append, List.map_append, h.predicted, h'.predicted]
  · rw [MatchSet.merge, MatchSet.merge, List.map_append, List.map_append, h.verified, h'.verified]

end MatchSet

/-! ### Marked identifiers -/

/-- A way to mark identifiers with the number of a test case: the number and the identifier can be
told from the mark. -/
structure CaseTagging where
  tag : Nat → Text → Text
  injective : ∀ {i j : Nat} {x y : Text}, tag i x = tag j y → i = j ∧ x = y

namespace CaseTagging

variable {R : Type} (g : CaseTagging)

/-- The predictions for test cases, all together. -/
def predictions (numbered : List (CompletedCase R × Nat)) : List TypePrediction :=
  numbered.flatMap fun c => c.1.predictions.map (·.renamed (g.tag c.2))

/-- The ground truth of test cases, all together. -/
def truths (numbered : List (CompletedCase R × Nat)) : List GroundTruth :=
  numbered.flatMap fun c => c.1.case.truths.map (·.renamed (g.tag c.2))

/-- The matchings of test cases, one after the other. -/
def matching (numbered : List (CompletedCase R × Nat)) : MatchSet :=
  .concat (numbered.map fun c => c.1.matching.renamed (g.tag c.2))

/-- Marks of different numbers make different keys. -/
theorem key_ne {i j : Nat} (h : i ≠ j) (t : GroundTruth) (p : TypePrediction) :
    (t.renamed (g.tag i)).key ≠ (p.renamed (g.tag j)).key := fun hkey =>
  h (g.injective (congrArg MatchKey.identifier hkey)).1

variable {g} {numbered : List (CompletedCase R × Nat)}

theorem exists_of_mem_predictions {p : TypePrediction} (h : p ∈ g.predictions numbered) :
    ∃ j ∈ numbered.map (·.2), ∃ q : TypePrediction, q.renamed (g.tag j) = p := by
  obtain ⟨c, hc, hp⟩ := List.mem_flatMap.1 h
  obtain ⟨q, -, hq⟩ := List.mem_map.1 hp
  exact ⟨c.2, List.mem_map_of_mem hc, q, hq⟩

theorem exists_of_mem_truths {t : GroundTruth} (h : t ∈ g.truths numbered) :
    ∃ j ∈ numbered.map (·.2), ∃ u : GroundTruth, u.renamed (g.tag j) = t := by
  obtain ⟨c, hc, ht⟩ := List.mem_flatMap.1 h
  obtain ⟨u, -, hu⟩ := List.mem_map.1 ht
  exact ⟨c.2, List.mem_map_of_mem hc, u, hu⟩

/-- The matching of test cases of different numbers, all together, is that of each. -/
theorem run_tagged (h : (numbered.map (·.2)).Nodup) :
    FirstFit.Run (g.predictions numbered) (g.truths numbered) (g.matching numbered) := by
  induction numbered with
  | nil => exact .nil []
  | cons c rest ih =>
    obtain ⟨hnew, hrest⟩ := List.nodup_cons.1 h
    have hfirst : FirstFit.Run (c.1.predictions.map (·.renamed (g.tag c.2)))
        (c.1.case.truths.map (·.renamed (g.tag c.2))) (c.1.matching.renamed (g.tag c.2)) :=
      (MatchSet.run_ofPredictions _ _).renamed fun x y hxy => (g.injective hxy).2
    refine hfirst.merge (ih hrest) ?_ ?_
    · rw [List.forall_mem_map]
      intro p _ u hu
      obtain ⟨j, hj, u, rfl⟩ := exists_of_mem_truths hu
      exact g.key_ne (ne_of_mem_of_not_mem hj hnew) u p
    · intro q hq
      rw [List.forall_mem_map]
      intro t _
      obtain ⟨j, hj, q, rfl⟩ := exists_of_mem_predictions hq
      exact g.key_ne (ne_of_mem_of_not_mem hj hnew).symm t q

/-- Marks change no label of a matching. -/
theorem sameLabels_matching (g : CaseTagging) (numbered : List (CompletedCase R × Nat)) :
    (MatchSet.concat ((numbered.map (·.1)).map (·.matching))).SameLabels (g.matching numbered) := by
  induction numbered with
  | nil => exact ⟨rfl, rfl, rfl⟩
  | cons c rest ih => exact (MatchSet.sameLabels_renamed _ _).merge ih

/-- Marks change no label of the ground truth. -/
theorem map_label_truths (g : CaseTagging) (numbered : List (CompletedCase R × Nat)) :
    ((numbered.map (·.1)).flatMap (·.case.truths)).map (·.label) =
      (g.truths numbered).map (·.label) := by
  rw [truths, List.flatMap_map, List.map_flatMap, List.map_flatMap]
  congr 1
  funext c
  rw [List.map_map]
  rfl

/-- The test cases in their order, each with its number. -/
theorem ofPredictions_tagged (g : CaseTagging) (done : List (CompletedCase R)) :
    MatchSet.ofPredictions (g.predictions done.zipIdx) (g.truths done.zipIdx) =
      g.matching done.zipIdx := by
  refine (MatchSet.run_iff.1 (run_tagged ?_)).symm
  rw [List.zipIdx_map_snd]
  exact List.nodup_range'

variable [Quantity R]

/-- The score over test cases that are matched one by one is that of all of them together, but for
the marks of the predictions that it lists. -/
theorem score_eq (g : CaseTagging) (done : List (CompletedCase R)) (policy : ScoringPolicy)
    (name : Text) :
    (CaseTally.empty.addAll done).score policy name =
      ((EvaluationResult.ofPredictions policy name (g.predictions done.zipIdx)
        (g.truths done.zipIdx) (CaseTally.empty.addAll done).time).map
          (.withPredictions (done.flatMap (·.predictions)))).mapError (.failed <| .report ·) := by
  have hmatching :
      (MatchSet.concat (done.map (·.matching))).SameLabels (g.matching done.zipIdx) := by
    have hsame := sameLabels_matching g done.zipIdx
    rwa [List.zipIdx_map_fst] at hsame
  have htruths : (done.flatMap (·.case.truths)).map (·.label) =
      (g.truths done.zipIdx).map (·.label) := by
    have hsame := map_label_truths g done.zipIdx
    rwa [List.zipIdx_map_fst] at hsame
  rw [CaseTally.score, CaseTally.addAll_eq, EvaluationResult.ofPredictions, ofPredictions_tagged]
  exact congrArg (Except.mapError _) (hmatching.result_eq htruths policy name _)

/-- So a result over test cases is the result of all of them together, but for the marks. -/
theorem ofPredictions_of_score (g : CaseTagging) {done : List (CompletedCase R)}
    {policy : ScoringPolicy} {name : Text} {result : EvaluationResult R}
    (h : (CaseTally.empty.addAll done).score policy name = .ok result) :
    result.predictions = done.flatMap (·.predictions) ∧
      EvaluationResult.ofPredictions policy name (g.predictions done.zipIdx)
        (g.truths done.zipIdx) result.time =
          .ok (result.withPredictions (g.predictions done.zipIdx)) := by
  rw [g.score_eq] at h
  cases htagged : EvaluationResult.ofPredictions policy name (g.predictions done.zipIdx)
      (g.truths done.zipIdx) (CaseTally.empty.addAll done).time with
  | error report =>
    rw [htagged] at h
    cases h
  | ok tagged =>
    rw [htagged] at h
    obtain rfl := Except.ok.inj h
    obtain rfl := EvaluationResult.eq_of_accept htagged
    exact ⟨rfl, htagged⟩

/-- A way to mark identifiers: as many strokes as the number says, and a colon. -/
def strokes : CaseTagging where
  tag number identifier :=
    List.replicate number ('|' : CodePoint) ++ (':' : CodePoint) :: identifier
  injective {i j x y} h := by
    induction i generalizing j with
    | zero =>
      cases j with
      | zero => exact ⟨rfl, (List.cons.inj h).2⟩
      | succ j => exact absurd (List.cons.inj h).1 (by decide)
    | succ i ih =>
      cases j with
      | zero => exact absurd (List.cons.inj h).1 (by decide)
      | succ j =>
        obtain ⟨rfl, rfl⟩ := ih (List.cons.inj h).2
        exact ⟨rfl, rfl⟩

end CaseTagging

/-- The matches of a test case are made of its own predictions and its own ground truth. -/
theorem CompletedCase.mem_of_mem_matching {R : Type} {c : CompletedCase R} {x : TypeMatch}
    (h : x ∈ c.matching.found) : x.prediction ∈ c.predictions ∧ x.truth ∈ c.case.truths := by
  have hrun : FirstFit.Run c.predictions c.case.truths c.matching := MatchSet.run_ofPredictions _ _
  exact ⟨hrun.interleaved.sublist_left.subset (List.mem_map_of_mem h),
    hrun.perm_truths.subset (List.mem_append_left _ (List.mem_map_of_mem h))⟩

/-! ### Evaluations -/

namespace Bench

variable {R : Type} [Quantity R]

/-- **Test cases as groups.** Groups without a common key are matched on their own. So, for any
marks, the score of test cases that are matched one by one is that of one matching of them all with
marked identifiers, in which no prediction takes the ground truth of another test case; and the
result of an evaluation is the result of that one matching, but for the marks. -/
theorem evaluate_tagged (g : CaseTagging) :
    (∀ (ps qs : List TypePrediction) (ts us : List GroundTruth),
      (MatchSet.keysOf ps ts).Disjoint (MatchSet.keysOf qs us) →
        MatchSet.ofPredictions (ps ++ qs) (ts ++ us) =
          (MatchSet.ofPredictions ps ts).merge (.ofPredictions qs us)) ∧
      (∀ (done : List (CompletedCase R)) (policy : ScoringPolicy) (name : Text),
        (CaseTally.empty.addAll done).score policy name =
          ((EvaluationResult.ofPredictions policy name (g.predictions done.zipIdx)
            (g.truths done.zipIdx) (CaseTally.empty.addAll done).time).map
              (.withPredictions (done.flatMap (·.predictions)))).mapError (.failed <| .report ·)) ∧
      (∀ done : List (CompletedCase R),
        (CaseTally.empty.addAll done).matching = .concat (done.map (·.matching)) ∧
          MatchSet.ofPredictions (g.predictions done.zipIdx) (g.truths done.zipIdx) =
            .concat (done.zipIdx.map fun c => c.1.matching.renamed (g.tag c.2)) ∧
          ∀ c ∈ done, ∀ x ∈ c.matching.found,
            x.prediction ∈ c.predictions ∧ x.truth ∈ c.case.truths) ∧
      ∀ (A : Type) [Approach A] (bench : Bench A) (world : World R) (name : Text)
        (cases : List TestCase) (options : Options) (result : EvaluationResult R),
        (bench.evaluate world name cases options).outcome = .ok result →
          ∃ (registration : Registration A) (done : List (CompletedCase R)) (a : A)
            (clock : Clock R), bench.find? name = some registration ∧
              CourseRun bench.policy name cases options registration.approach world.clock
                ⟨done, none, .ok result⟩ a clock ∧
              done.map (·.case) = cases ∧ result.predictions = done.flatMap (·.predictions) ∧
              EvaluationResult.ofPredictions bench.policy name (g.predictions done.zipIdx)
                (g.truths done.zipIdx) result.time =
                  .ok (result.withPredictions (g.predictions done.zipIdx)) := by
  refine ⟨fun ps qs ts us h => MatchSet.ofPredictions_append h, g.score_eq, fun done => ⟨?_,
    g.ofPredictions_tagged done, fun c _ x hx => c.mem_of_mem_matching hx⟩, ?_⟩
  · rw [CaseTally.addAll_eq]
    rfl
  · intro A _ bench world name cases options result h
    obtain ⟨registration, done, a, clock, hfind, hcourse⟩ := evaluate_ok h
    obtain ⟨hcases, hscore⟩ := hcourse.score_of_ok
    obtain ⟨hpredictions, htagged⟩ := g.ofPredictions_of_score hscore
    exact ⟨registration, done, a, clock, hfind, hcourse, hcases, hpredictions, htagged⟩

/-- An approach that takes one variable of the second test case for a string. -/
def labeller : Script where
  name := Text.ofString "labeller"
  ready := .ok ()
  predictions _ file := if file = Text.ofString "c2" then .ok [MatchSet.guess "string"] else .ok []
  done := .ok ()

/-- Two test cases with a variable at the same place. -/
def sharedPlace : List TestCase :=
  [⟨Text.ofString "c1", Text.ofString "first", Text.ofString "let x",
      [MatchSet.firstEntry "x" "string"], none⟩,
    ⟨Text.ofString "c2", Text.ofString "second", Text.ofString "let x",
      [MatchSet.firstEntry "x" "number"], none⟩]

/-- A bench with this approach only. -/
def labellerBench : Bench Script := (Bench.empty .strict).add labeller

/-- The string of the first test case is not predicted by the second one, neither test case by test
case nor in one matching with marked identifiers. -/
theorem evaluate_tagged_sharedPlace :
    MatchSet.ofPredictions ([MatchSet.guess "string"] ++ [])
        ([MatchSet.entry "x" "number" 1 (by decide)] ++
          [MatchSet.entry "y" "string" 1 (by decide)]) =
      (MatchSet.ofPredictions [MatchSet.guess "string"]
          [MatchSet.entry "x" "number" 1 (by decide)]).merge
        (.ofPredictions [] [MatchSet.entry "y" "string" 1 (by decide)]) ∧
    ∃ (result : EvaluationResult Binary64) (done : List (CompletedCase Binary64)),
      (labellerBench.evaluate ⟨.ofReadings [], .silent, []⟩ labeller.name sharedPlace []).outcome =
        .ok result ∧
      result.correct = 0 ∧ done.map (·.case) = sharedPlace ∧
      EvaluationResult.ofPredictions .strict labeller.name
        (CaseTagging.strokes.predictions done.zipIdx) (CaseTagging.strokes.truths done.zipIdx)
        result.time =
          .ok (result.withPredictions (CaseTagging.strokes.predictions done.zipIdx)) := by
  obtain ⟨happend, -, -, hevaluate⟩ := evaluate_tagged (R := Binary64) CaseTagging.strokes
  refine ⟨happend _ _ _ _ (List.disjoint_left.2 (by decide)), ?_⟩
  let outcome : Except Halt (EvaluationResult Binary64) :=
    (labellerBench.evaluate ⟨.ofReadings [], .silent, []⟩ labeller.name sharedPlace []).outcome
  have hcorrect : outcome.map (·.correct) = .ok 0 := by decide +kernel
  cases houtcome : outcome with
  | error halt =>
    rw [houtcome] at hcorrect
    cases hcorrect
  | ok result =>
    rw [houtcome] at hcorrect
    obtain ⟨-, done, -, -, -, -, hcases, -, htagged⟩ :=
      hevaluate Script labellerBench _ labeller.name sharedPlace [] result houtcome
    exact ⟨result, done, houtcome, Except.ok.inj hcorrect, hcases, htagged⟩

end Bench

end TypeBench
