import TypeBench.Proofs.Matching.Account

/-!
# Matchings in another order

First fit depends on the order of predictions and entries where a key comes more than once, and
nowhere else. If the keys on either side differ, a match is a prediction and an entry of one key,
whatever comes before them. Matchings of several test cases are put together in their order, so
another order of the test cases leaves the pairs and the leftovers as they are.

## Main definitions

* `MatchSet.IsReordering`: matchings of the same pairs and leftovers.
* `CompletedCase.IsReordering`: a test case with its lists in another order, where keys differ.
* `CompletedCase.Reorders`: test cases in another order, or with their lists in another order.

## Main results

* `MatchSet.mem_found_iff`: the matches of keys that differ.
* `MatchSet.isReordering_ofPredictions`: the matching of lists in another order.
* `CompletedCase.Reorders.isReordering`: the matching over test cases.
-/

namespace TypeBench

open List

namespace MatchSet

/-- Matchings of the same pairs with the same leftovers, in whatever order. -/
structure IsReordering (a b : MatchSet) : Prop where
  found : a.found ~ b.found
  predicted : a.unmatchedPredictions ~ b.unmatchedPredictions
  verified : a.unmatchedTruths ~ b.unmatchedTruths

namespace IsReordering

theorem refl (m : MatchSet) : m.IsReordering m := ⟨.refl _, .refl _, .refl _⟩

theorem trans {a b c : MatchSet} (h : a.IsReordering b) (h' : b.IsReordering c) :
    a.IsReordering c :=
  ⟨h.found.trans h'.found, h.predicted.trans h'.predicted, h.verified.trans h'.verified⟩

theorem merge {a b a' b' : MatchSet} (h : a.IsReordering a') (h' : b.IsReordering b') :
    (a.merge b).IsReordering (a'.merge b') :=
  ⟨h.found.append h'.found, h.predicted.append h'.predicted, h.verified.append h'.verified⟩

theorem merge_left_comm (a b c : MatchSet) :
    (a.merge (b.merge c)).IsReordering (b.merge (a.merge c)) :=
  ⟨perm_append_comm_assoc .., perm_append_comm_assoc .., perm_append_comm_assoc ..⟩

/-- Matchings may be put together in any order. -/
theorem concat {ms ms' : List MatchSet} (h : ms ~ ms') :
    (MatchSet.concat ms).IsReordering (.concat ms') := by
  induction h with
  | nil => exact refl _
  | cons m _ ih => exact (refl m).merge ih
  | swap a b ms => exact merge_left_comm b a _
  | trans _ _ ih ih' => exact ih.trans ih'

end IsReordering

/-! ### Keys that differ -/

section Distinct

variable {ps qs : List TypePrediction} {ts us : List GroundTruth}

/-- Where keys differ, a prediction and an entry of one key are a match. -/
theorem mem_found_iff (hps : (ps.map (·.key)).Nodup) (hts : (ts.map (·.key)).Nodup)
    {x : TypeMatch} : x ∈ (ofPredictions ps ts).found ↔
      x.prediction ∈ ps ∧ x.truth ∈ ts ∧ x.prediction.key = x.truth.key := by
  have hrun := run_ofPredictions ps ts
  have hfound (y : TypeMatch) (hy : y ∈ (ofPredictions ps ts).found) :
      y.prediction ∈ ps ∧ y.truth ∈ ts ∧ y.prediction.key = y.truth.key :=
    ⟨hrun.interleaved.sublist_left.subset (mem_map_of_mem hy),
      hrun.perm_truths.subset (mem_append_left _ (mem_map_of_mem hy)), hrun.keys_eq y hy⟩
  refine ⟨hfound x, fun ⟨hp, ht, hkey⟩ => ?_⟩
  -- Their key has a match, since it is on both sides; and there is only one that it can be.
  have hcount : 0 < ((ofPredictions ps ts).found.map (·.prediction.key)).count x.truth.key := by
    rw [hrun.count_found]
    exact Nat.lt_min.2 ⟨count_pos_iff.2 (hkey ▸ mem_map_of_mem hp),
      count_pos_iff.2 (mem_map_of_mem ht)⟩
  obtain ⟨⟨p, t⟩, hy, hkey'⟩ := mem_map.1 (count_pos_iff.1 hcount)
  obtain ⟨hp', ht', hsame⟩ := hfound _ hy
  obtain ⟨prediction, truth⟩ := x
  obtain rfl : p = prediction := inj_on_of_nodup_map hps hp' hp (hkey'.trans hkey.symm)
  obtain rfl : t = truth := inj_on_of_nodup_map hts ht' ht (hsame.symm.trans hkey')
  exact hy

/-- No prediction is in two matches. -/
theorem nodup_found (hps : (ps.map (·.key)).Nodup) (ts : List GroundTruth) :
    (ofPredictions ps ts).found.Nodup := by
  have hsublist := (run_ofPredictions ps ts).interleaved.sublist_left
  exact (hsublist.nodup (.of_map _ hps)).of_map _

/-- The matching of lists in another order, where keys differ. -/
theorem isReordering_ofPredictions (hpredictions : ps ~ qs) (htruths : ts ~ us)
    (hps : (ps.map (·.key)).Nodup) (hts : (ts.map (·.key)).Nodup) :
    (ofPredictions ps ts).IsReordering (ofPredictions qs us) := by
  have hqs : (qs.map (·.key)).Nodup := (hpredictions.map _).nodup_iff.1 hps
  have hus : (us.map (·.key)).Nodup := (htruths.map _).nodup_iff.1 hts
  have hfound : (ofPredictions ps ts).found ~ (ofPredictions qs us).found := by
    refine (perm_ext_iff_of_nodup (nodup_found hps ts) (nodup_found hqs us)).2 fun x => ?_
    rw [mem_found_iff hps hts, mem_found_iff hqs hus, hpredictions.mem_iff, htruths.mem_iff]
  -- What is left over is what is not in the matches, which are the same.
  have h := accounts_ofPredictions ps ts
  have h' := accounts_ofPredictions qs us
  refine ⟨hfound, ?_, ?_⟩
  · have hall := h.predictions_perm.trans (hpredictions.trans h'.predictions_perm.symm)
    exact (perm_append_left_iff _).1 (hall.trans ((hfound.map _).symm.append_right _))
  · have hall := h.truths_perm.trans (htruths.trans h'.truths_perm.symm)
    exact (perm_append_left_iff _).1 (hall.trans ((hfound.map _).symm.append_right _))

end Distinct

end MatchSet

/-! ### Test cases -/

namespace CompletedCase

variable {R : Type}

/-- A test case with its predictions and its ground truth in another order, where no key comes twice
on either side. -/
structure IsReordering (c c' : CompletedCase R) : Prop where
  predictions : c.predictions ~ c'.predictions
  truths : c.case.truths ~ c'.case.truths
  nodup_predictions : (c.predictions.map (·.key)).Nodup
  nodup_truths : (c.case.truths.map (·.key)).Nodup

/-- Test cases in another order, each with its predictions, or with the lists of a test case in
another order; whatever time they take. -/
inductive Reorders : List (CompletedCase R) → List (CompletedCase R) → Prop
  | cases {done done' : List (CompletedCase R)}
      (h : done.map (fun c => (c.case, c.predictions)) ~
        done'.map fun c => (c.case, c.predictions)) :
      Reorders done done'
  | within {c c' : CompletedCase R} (h : c.IsReordering c')
      (before after : List (CompletedCase R)) :
      Reorders (before ++ c :: after) (before ++ c' :: after)
  | trans {done done' done'' : List (CompletedCase R)} (h : Reorders done done')
      (h' : Reorders done' done'') : Reorders done done''

/-- Test cases in another order, where the predictions are those that belong to a test case. -/
theorem reorders_of_perm {done done' : List (CompletedCase R)}
    (predict : TestCase → List TypePrediction) (h : done.map (·.case) ~ done'.map (·.case))
    (hdone : ∀ c ∈ done, c.predictions = predict c.case)
    (hdone' : ∀ c ∈ done', c.predictions = predict c.case) : Reorders done done' := by
  have hcontent (all : List (CompletedCase R)) (hall : ∀ c ∈ all, c.predictions = predict c.case) :
      all.map (fun c => (c.case, c.predictions)) =
        (all.map (·.case)).map fun case => (case, predict case) := by
    rw [map_map]
    exact map_congr_left fun c hc => Prod.ext rfl (hall c hc)
  refine .cases ?_
  rw [hcontent done hdone, hcontent done' hdone']
  exact h.map _

/-- What test cases in another order are about, up to order. -/
theorem Reorders.truths {done done' : List (CompletedCase R)} (h : Reorders done done') :
    done.flatMap (·.case.truths) ~ done'.flatMap (·.case.truths) := by
  induction h with
  | @cases done done' h =>
    have hcases := h.flatMap_right fun content => content.1.truths
    rwa [flatMap_map, flatMap_map] at hcases
  | within h before after =>
    rw [flatMap_append, flatMap_append, flatMap_cons, flatMap_cons]
    exact (h.truths.append_right _).append_left _
  | trans _ _ ih ih' => exact ih.trans ih'

/-- The matchings of test cases in another order, one after the other. -/
theorem Reorders.isReordering {done done' : List (CompletedCase R)} (h : Reorders done done') :
    (MatchSet.concat (done.map (·.matching))).IsReordering (.concat (done'.map (·.matching))) := by
  induction h with
  | @cases done done' h =>
    have hcases := h.map fun content => MatchSet.ofPredictions content.2 content.1.truths
    rw [map_map, map_map] at hcases
    exact .concat hcases
  | @within c c' h before after =>
    have hcase : c.matching.IsReordering c'.matching := MatchSet.isReordering_ofPredictions
      h.predictions h.truths h.nodup_predictions h.nodup_truths
    -- The test case comes first, is changed there, and goes back to its place.
    have hfirst := hcase.merge (.refl (MatchSet.concat ((before ++ after).map (·.matching))))
    refine .trans (.concat (perm_middle.map _)) (.trans hfirst (.concat (perm_middle.symm.map _)))
  | trans _ _ ih ih' => exact ih.trans ih'

end CompletedCase

/-- What is collected over test cases in another order is matched alike. -/
theorem CaseTally.isReordering_addAll {R : Type} [Quantity R] {done done' : List (CompletedCase R)}
    (h : CompletedCase.Reorders done done') :
    (CaseTally.empty.addAll done).matching.IsReordering
      (CaseTally.empty.addAll done').matching := by
  rw [addAll_eq, addAll_eq]
  exact h.isReordering

end TypeBench
