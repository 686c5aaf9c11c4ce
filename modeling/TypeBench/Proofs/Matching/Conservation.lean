import Mathlib.Data.List.Perm.Subperm
import TypeBench.Proofs.Evaluation.Course
import TypeBench.Proofs.Matching.Run
import TypeBench.Proofs.Score.Acceptance

/-!
# Conservation in a matching

A matching loses nothing and uses nothing twice. The predictions are those of the matches and those
left over, interleaved; the entries of the ground truth are those of the matches, at different
indices, and those left over. For every key there are as many matches as the scarcer side allows, so
no matching of keys is larger. The counts that the metrics divide by add up for this reason.

## Main definitions

* `Interleaves`: two lists merged into one, each in its own order.
* `MatchSet.IsMatching`: pairs of equal keys that use nothing more often than it is there.
* `MatchSet.Conserves`: a matching that loses nothing, uses nothing twice and is as large as
  possible.
* `MatchSet.Balances`: the counts of a matching add up.

## Main results

* `FirstFit.Run.count_found`: the number of matches of a key is the smaller of its two counts.
* `FirstFit.scan_indexed`: the matches take entries at different indices.
* `MatchSet.IsMatching.length_le`: no other matching is larger.
* `CaseTally.balances_addAll`: the counts over several test cases add up too.
* `MatchSet.ofPredictions_conserves`: the matching conserves both lists, and results count right.
-/

namespace TypeBench

open List

/-- A list is merged from two others, each of which keeps its order. -/
inductive Interleaves {α : Type} : List α → List α → List α → Prop
  | nil : Interleaves [] [] []
  | left {as bs all : List α} (a : α) (h : Interleaves as bs all) :
      Interleaves (a :: as) bs (a :: all)
  | right {as bs all : List α} (b : α) (h : Interleaves as bs all) :
      Interleaves as (b :: bs) (b :: all)

namespace Interleaves

variable {α : Type} {as bs all : List α}

theorem sublist_left (h : Interleaves as bs all) : as <+ all := by
  induction h with
  | nil => exact .slnil
  | left a _ ih => exact ih.cons_cons a
  | right b _ ih => exact ih.cons b

theorem length_eq (h : Interleaves as bs all) : all.length = as.length + bs.length := by
  induction h with
  | nil => rfl
  | left a _ ih => rw [length_cons, length_cons, ih]; omega
  | right b _ ih => rw [length_cons, length_cons, ih]; omega

end Interleaves

/-! ### Runs -/

namespace FirstFit

variable {predictions : List TypePrediction} {truths : List GroundTruth} {m : MatchSet}

theorem Run.interleaved (h : Run predictions truths m) :
    Interleaves (m.found.map (·.prediction)) m.unmatchedPredictions predictions := by
  induction h with
  | nil => exact .nil
  | @taken p _ _ _ _ _ _ _ _ ih => exact .left p ih
  | @missed p _ _ _ _ _ ih => exact .right p ih

/-- The entries of the matches and those left over are the entries of the ground truth. -/
theorem Run.perm_truths (h : Run predictions truths m) :
    m.found.map (·.truth) ++ m.unmatchedTruths ~ truths := by
  induction h with
  | nil => exact .refl _
  | taken _ _ _ ih => exact (ih.cons _).trans perm_middle.symm
  | missed _ _ ih => exact ih

theorem Run.keys_eq (h : Run predictions truths m) :
    ∀ x ∈ m.found, x.prediction.key = x.truth.key := by
  induction h with
  | nil => simp
  | taken hkey _ _ ih => exact forall_mem_cons.2 ⟨hkey.symm, ih⟩
  | missed _ _ ih => exact ih

/-- The number of matches of a key is the smaller one of its two counts. -/
theorem Run.count_found (h : Run predictions truths m) (key : MatchKey) :
    (m.found.map (·.prediction.key)).count key =
      min ((predictions.map (·.key)).count key) ((truths.map (·.key)).count key) := by
  induction h with
  | nil => simp
  | taken hkey _ _ ih =>
    simp only [map_append, map_cons, count_append, count_cons, hkey] at ih ⊢
    split <;> omega
  | @missed p free _ _ hfree _ ih =>
    simp only [map_cons, count_cons]
    split
    · rename_i hkey
      have hzero : (free.map (·.key)).count key = 0 := by
        rw [count_eq_zero, ← eq_of_beq hkey]
        exact fun hmem => by
          obtain ⟨t, ht, heq⟩ := mem_map.1 hmem
          exact hfree t ht heq
      omega
    · exact ih

/-- A prediction is left over only if all entries of its key are taken. -/
theorem Run.unmatched_keys_ne (h : Run predictions truths m) :
    ∀ p ∈ m.unmatchedPredictions, ∀ t ∈ m.unmatchedTruths, t.key ≠ p.key := by
  induction h with
  | nil => simp
  | taken _ _ _ ih => exact ih
  | missed hfree hrest ih =>
    refine forall_mem_cons.2 ⟨fun t ht => hfree t ?_, ih⟩
    exact hrest.perm_truths.subset (mem_append_right _ ht)

/-- The plain procedure takes entries at different indices, none of them taken before, and leaves
the other ones over. -/
theorem scan_indexed (truths : List GroundTruth) (taken : List Nat)
    (predictions : List TypePrediction) :
    ∃ indices : List Nat, indices.Nodup ∧ (∀ i ∈ indices, i ∉ taken) ∧
      (scan truths taken predictions).found.map (some ·.truth) = indices.map (truths[·]?) ∧
      (scan truths taken predictions).unmatchedTruths = leftover truths (taken ++ indices) := by
  induction predictions generalizing taken with
  | nil => exact ⟨[], nodup_nil, by simp, rfl, by rw [append_nil]; rfl⟩
  | cons p rest ih =>
    rw [scan]
    cases hsearch : search? truths taken p with
    | none => exact ih taken
    | some found =>
      obtain ⟨t, index⟩ := found
      obtain ⟨indices, hnodup, hfresh, hfound, hleft⟩ := ih (index :: taken)
      obtain ⟨ht, hindex⟩ : truths[index]? = some t ∧ index ∉ taken := by
        rw [search?_eq_find?] at hsearch
        have hmem := mem_of_find?_eq_some hsearch
        simpa [remaining, mk_mem_zipIdx_iff_getElem?] using hmem
      refine ⟨index :: indices, nodup_cons.2 ⟨fun hmem => hfresh index hmem mem_cons_self, hnodup⟩,
        forall_mem_cons.2 ⟨hindex, fun i hi hmem => hfresh i hi (mem_cons_of_mem _ hmem)⟩, ?_, ?_⟩
      · rw [map_cons, map_cons, hfound, ht]
      · rw [hleft, leftover, leftover]
        congr 2
        funext e
        simp [or_left_comm]

end FirstFit

namespace MatchSet

/-! ### The largest matching -/

/-- Pairs of predictions and entries of equal keys, in which nothing is used more often than it is
there. -/
structure IsMatching (predictions : List TypePrediction) (truths : List GroundTruth)
    (pairs : List TypeMatch) : Prop where
  keys_eq : ∀ x ∈ pairs, x.prediction.key = x.truth.key
  predictions_subperm : pairs.map (·.prediction) <+~ predictions
  truths_subperm : pairs.map (·.truth) <+~ truths

variable {predictions : List TypePrediction} {truths : List GroundTruth}

/-- A key has no more pairs than it has predictions, nor than it has entries. -/
theorem IsMatching.count_le {pairs : List TypeMatch} (h : IsMatching predictions truths pairs)
    (key : MatchKey) :
    (pairs.map (·.prediction.key)).count key ≤
      min ((predictions.map (·.key)).count key) ((truths.map (·.key)).count key) := by
  have hpredictions := h.predictions_subperm.countP_le fun p => p.key == key
  have htruths := h.truths_subperm.countP_le fun t => t.key == key
  rw [countP_map] at hpredictions htruths
  have hsame : pairs.countP ((fun t : GroundTruth => t.key == key) ∘ (·.truth)) =
      pairs.countP ((fun p : TypePrediction => p.key == key) ∘ (·.prediction)) :=
    countP_congr fun x hx => by simp [h.keys_eq x hx]
  rw [hsame] at htruths
  simp only [count_eq_countP, countP_map]
  exact Nat.le_min.2 ⟨hpredictions, htruths⟩

/-- No matching has more pairs than first fit finds. -/
theorem IsMatching.length_le {pairs : List TypeMatch} (h : IsMatching predictions truths pairs) :
    pairs.length ≤ (ofPredictions predictions truths).found.length := by
  have hrun := run_ofPredictions predictions truths
  have hkeys : pairs.map (·.prediction.key) <+~
      (ofPredictions predictions truths).found.map (·.prediction.key) := by
    rw [subperm_iff_count]
    intro key
    rw [hrun.count_found]
    exact h.count_le key
  simpa using hkeys.length_le

/-! ### Counts -/

/-- A matching accounts for every prediction and for every entry. -/
structure Balances (m : MatchSet) (predictions : List TypePrediction)
    (truths : List GroundTruth) : Prop where
  predictions_length : predictions.length = m.found.length + m.unmatchedPredictions.length
  truths_length : truths.length = m.found.length + m.unmatchedTruths.length

theorem balances_ofPredictions (predictions : List TypePrediction) (truths : List GroundTruth) :
    (ofPredictions predictions truths).Balances predictions truths := by
  have hrun := run_ofPredictions predictions truths
  refine ⟨?_, ?_⟩
  · rw [hrun.interleaved.length_eq, length_map]
  · rw [← hrun.perm_truths.length_eq, length_append, length_map]

theorem Balances.merge {a b : MatchSet} {ps qs : List TypePrediction} {ts us : List GroundTruth}
    (ha : a.Balances ps ts) (hb : b.Balances qs us) :
    (a.merge b).Balances (ps ++ qs) (ts ++ us) := by
  refine ⟨?_, ?_⟩
  · simp only [MatchSet.merge, length_append, ha.predictions_length, hb.predictions_length]
    omega
  · simp only [MatchSet.merge, length_append, ha.truths_length, hb.truths_length]
    omega

end MatchSet

/-- The counts over several test cases add up. -/
theorem CaseTally.balances_addAll {R : Type} [Quantity R] {t : CaseTally R}
    (h : t.matching.Balances t.predictions t.truths) (done : List (CompletedCase R)) :
    (t.addAll done).matching.Balances (t.addAll done).predictions (t.addAll done).truths := by
  induction done generalizing t with
  | nil => exact h
  | cons first done ih => exact ih (h.merge (MatchSet.balances_ofPredictions _ _))

/-! ### Results -/

/-- A result counts the predictions and the matches of a matching. -/
structure EvaluationResult.Counts {R : Type} [Quantity R] (r : EvaluationResult R) (m : MatchSet)
    (truths : List GroundTruth) : Prop where
  predictions_length : r.predictions.length = m.found.length + m.unmatchedPredictions.length
  coverage_eq : r.additional.lookup (Text.ofString "coverage") =
    some (Quantity.ratio m.found.length truths.length)

namespace MatchSet

variable {R : Type} [Quantity R] {predictions : List TypePrediction} {truths : List GroundTruth}

/-- The share of the ground truth that has a prediction is a share of matches. -/
theorem Balances.coverage_eq {m : MatchSet} (h : m.Balances predictions truths) :
    m.coverage R truths = Quantity.ratio m.found.length truths.length := by
  rw [coverage, Nat.sub_eq_of_eq_add h.truths_length]

theorem Balances.counts {m : MatchSet} (h : m.Balances predictions truths)
    {policy : ScoringPolicy} {approach : Text} {time : R} {r : EvaluationResult R}
    (hr : m.result policy approach predictions truths time = .ok r) : r.Counts m truths := by
  obtain rfl := EvaluationResult.eq_of_accept hr
  refine ⟨h.predictions_length, ?_⟩
  change (m.additional R truths).lookup _ = _
  rw [additional, h.coverage_eq]
  rfl

/-- A matching that loses nothing, uses nothing twice, and is as large as possible. -/
structure Conserves (m : MatchSet) (predictions : List TypePrediction)
    (truths : List GroundTruth) : Prop where
  /-- The predictions of the matches and those left over are the predictions, interleaved. -/
  interleaved : Interleaves (m.found.map (·.prediction)) m.unmatchedPredictions predictions
  /-- The matches take entries at different indices, and all other entries are left over. -/
  indexed : ∃ indices : List Nat, indices.Nodup ∧
    m.found.map (some ·.truth) = indices.map (truths[·]?) ∧
    m.unmatchedTruths = FirstFit.leftover truths indices
  isMatching : IsMatching predictions truths m.found
  count_found : ∀ key, (m.found.map (·.prediction.key)).count key =
    min ((predictions.map (·.key)).count key) ((truths.map (·.key)).count key)
  unmatched_keys_ne : ∀ p ∈ m.unmatchedPredictions, ∀ t ∈ m.unmatchedTruths, t.key ≠ p.key
  length_le : ∀ pairs, IsMatching predictions truths pairs → pairs.length ≤ m.found.length

theorem conserves (predictions : List TypePrediction) (truths : List GroundTruth) :
    (ofPredictions predictions truths).Conserves predictions truths where
  interleaved := (run_ofPredictions predictions truths).interleaved
  indexed := by
    obtain ⟨indices, hnodup, -, hfound, hleft⟩ := FirstFit.scan_indexed truths [] predictions
    rw [← ofPredictions_eq_scan] at hfound hleft
    exact ⟨indices, hnodup, hfound, hleft⟩
  isMatching := by
    have hrun := run_ofPredictions predictions truths
    exact ⟨hrun.keys_eq, hrun.interleaved.sublist_left.subperm,
      (sublist_append_left _ _).subperm.trans hrun.perm_truths.subperm⟩
  count_found := (run_ofPredictions predictions truths).count_found
  unmatched_keys_ne := (run_ofPredictions predictions truths).unmatched_keys_ne
  length_le _ h := h.length_le

/-- **Conservation.** The matching of predictions to a ground truth loses nothing, uses nothing
twice and is as large as possible. So a result over one source unit, and one over several test cases
that are matched one by one, counts all predictions, and its coverage is a share of matches. -/
theorem ofPredictions_conserves (predictions : List TypePrediction) (truths : List GroundTruth) :
    (ofPredictions predictions truths).Conserves predictions truths ∧
      (∀ (policy : ScoringPolicy) (approach : Text) (time : R) (r : EvaluationResult R),
        EvaluationResult.ofPredictions policy approach predictions truths time = .ok r →
          r.Counts (ofPredictions predictions truths) truths) ∧
      ∀ (done : List (CompletedCase R)) (policy : ScoringPolicy) (approach : Text)
        (r : EvaluationResult R), (CaseTally.empty.addAll done).score policy approach = .ok r →
          r.Counts (CaseTally.empty.addAll done).matching (CaseTally.empty.addAll done).truths := by
  refine ⟨conserves predictions truths, fun policy approach time r hr => ?_,
    fun done policy approach r hr => ?_⟩
  · exact (balances_ofPredictions predictions truths).counts hr
  · have hbalances : (CaseTally.empty.addAll done).matching.Balances
        (CaseTally.empty.addAll done).predictions (CaseTally.empty.addAll done).truths :=
      CaseTally.balances_addAll ⟨rfl, rfl⟩ done
    rw [CaseTally.score] at hr
    cases hresult : (CaseTally.empty.addAll done).matching.result policy approach
        (CaseTally.empty.addAll done).predictions (CaseTally.empty.addAll done).truths
        (CaseTally.empty.addAll done).time with
    | error report =>
      rw [hresult] at hr
      cases hr
    | ok result =>
      rw [hresult] at hr
      cases hr
      exact hbalances.counts hresult

/-- A prediction for the variable `x` at the start of a source. -/
def guess (label : String) : TypePrediction where
  identifier := Text.ofString "x"
  label := Text.ofString label
  position := ⟨1, 0, by decide⟩
  context := ⟨Text.ofString "global", [], [], []⟩

/-- An entry for a variable at the start of a line. -/
def entry (identifier label : String) (line : Nat) (h : 1 ≤ line) : GroundTruth where
  identifier := Text.ofString identifier
  label := Text.ofString label
  position := ⟨line, 0, h⟩
  scope := Text.ofString "global"

/-- An entry for a variable at the start of the first line. -/
def firstEntry (identifier label : String) : GroundTruth := entry identifier label 1 (by decide)

/-- Three predictions of one key. -/
def threeGuesses : List TypePrediction := [guess "number", guess "string", guess "number"]

/-- Two entries of this key, and one of another key. -/
def threeEntries : List GroundTruth :=
  [entry "x" "string" 1 (by decide), entry "y" "number" 2 (by decide),
    entry "x" "string" 1 (by decide)]

/-- A test case with these entries, and these predictions for it. -/
def guessedCase : CompletedCase Binary64 where
  case := ⟨Text.ofString "c1", Text.ofString "case c1", Text.ofString "x", threeEntries, none⟩
  predictions := threeGuesses
  time := 1

/-- Of three predictions of one key with two entries one is left over, in the result over a source
unit and, twice, in the one over two test cases. -/
theorem ofPredictions_conserves_threeGuesses :
    ∃ single double : EvaluationResult Binary64,
      EvaluationResult.ofPredictions .strict (Text.ofString "guesser") threeGuesses threeEntries 1 =
        .ok single ∧
      (CaseTally.empty.addAll [guessedCase, guessedCase]).score .strict (Text.ofString "guesser") =
        .ok double ∧
      single.predictions.length = 2 + 1 ∧
      single.additional.lookup (Text.ofString "coverage") = some (Quantity.ratio 2 3) ∧
      double.predictions.length = 4 + 2 ∧
      double.additional.lookup (Text.ofString "coverage") = some (Quantity.ratio 4 6) := by
  let name := Text.ofString "guesser"
  let t := CaseTally.empty.addAll [guessedCase, guessedCase]
  let single : EvaluationResult Binary64 :=
    (ofPredictions threeGuesses threeEntries).scores .strict name threeGuesses threeEntries 1
  let double : EvaluationResult Binary64 :=
    t.matching.scores .strict name t.predictions t.truths t.time
  have hsingle : single.accept = .ok single := EvaluationResult.accept_of_keepsBounds
    ⟨by decide +kernel, by decide +kernel, by decide +kernel, by decide +kernel, by decide +kernel⟩
  have hdouble : double.accept = .ok double := EvaluationResult.accept_of_keepsBounds
    ⟨by decide +kernel, by decide +kernel, by decide +kernel, by decide +kernel, by decide +kernel⟩
  have hscore : t.score .strict name = .ok double := by
    change double.accept.mapError _ = _
    rw [hdouble]
    rfl
  obtain ⟨-, hresult, htally⟩ :=
    ofPredictions_conserves (R := Binary64) threeGuesses threeEntries
  obtain ⟨hguesses, hcoverage⟩ := hresult .strict name 1 single hsingle
  obtain ⟨hguesses', hcoverage'⟩ :=
    htally [guessedCase, guessedCase] .strict name double hscore
  exact ⟨single, double, hsingle, hscore, hguesses, hcoverage, hguesses', hcoverage'⟩

end MatchSet

end TypeBench
