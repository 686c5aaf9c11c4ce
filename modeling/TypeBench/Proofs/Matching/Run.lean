import Mathlib.Data.List.Nodup
import TypeBench.Proofs.Matching.FirstFit

/-!
# First fit as a run

A run of first fit takes the predictions one by one and carries the entries that are still free
along as a list. No index occurs in it: an entry that is taken leaves the list. What holds of every
matching is then shown by induction on its run, one case for each way in which a prediction may
fare.

## Main definitions

* `FirstFit.Run`: what first fit makes of predictions and free entries.

## Main results

* `FirstFit.Run.unique`: first fit comes to one result only.
* `FirstFit.run_scan`: the plain procedure is a run on the entries that are not taken.
* `FirstFit.run_iff`: the matching of predictions to a ground truth is the result of their run.
-/

namespace TypeBench

namespace FirstFit

/-- What first fit makes of predictions and free entries. A prediction takes the first entry of its
key out of the list, or is left over if the list has none. -/
inductive Run : List TypePrediction → List GroundTruth → MatchSet → Prop
  | nil (free : List GroundTruth) : Run [] free ⟨[], [], free⟩
  | taken {p : TypePrediction} {t : GroundTruth} {before after : List GroundTruth}
      {rest : List TypePrediction} {m : MatchSet} (hkey : t.key = p.key)
      (hbefore : ∀ b ∈ before, b.key ≠ p.key) (hrest : Run rest (before ++ after) m) :
      Run (p :: rest) (before ++ t :: after) { m with found := ⟨p, t⟩ :: m.found }
  | missed {p : TypePrediction} {free : List GroundTruth} {rest : List TypePrediction}
      {m : MatchSet} (hfree : ∀ t ∈ free, t.key ≠ p.key) (hrest : Run rest free m) :
      Run (p :: rest) free { m with unmatchedPredictions := p :: m.unmatchedPredictions }

/-! ### One result -/

/-- The first entry of a key splits a list in one way only. -/
theorem split_unique {key : MatchKey} {t t' : GroundTruth}
    {before after before' after' : List GroundTruth} (ht : t.key = key) (ht' : t'.key = key)
    (hbefore : ∀ b ∈ before, b.key ≠ key) (hbefore' : ∀ b ∈ before', b.key ≠ key)
    (h : before ++ t :: after = before' ++ t' :: after') :
    t = t' ∧ before ++ after = before' ++ after' := by
  induction before generalizing before' with
  | nil =>
    cases before' with
    | nil =>
      obtain ⟨rfl, rfl⟩ := List.cons.inj h
      exact ⟨rfl, rfl⟩
    | cons b' before' =>
      obtain ⟨rfl, -⟩ := List.cons.inj h
      exact absurd ht (hbefore' t List.mem_cons_self)
  | cons b before ih =>
    cases before' with
    | nil =>
      obtain ⟨rfl, -⟩ := List.cons.inj h
      exact absurd ht' (hbefore b List.mem_cons_self)
    | cons b' before' =>
      obtain ⟨rfl, hrest⟩ := List.cons.inj h
      rw [List.forall_mem_cons] at hbefore hbefore'
      obtain ⟨rfl, happend⟩ := ih hbefore.2 hbefore'.2 hrest
      exact ⟨rfl, congrArg (b :: ·) happend⟩

/-- First fit comes to one result only. -/
theorem Run.unique {predictions : List TypePrediction} {free : List GroundTruth}
    {m m' : MatchSet} (h : Run predictions free m) (h' : Run predictions free m') : m = m' := by
  induction h generalizing m' with
  | nil => cases h'; rfl
  | @taken p t before after rest m hkey hbefore hrest ih =>
    generalize hfree : before ++ t :: after = free at h'
    cases h' with
    | taken hkey' hbefore' hrest' =>
      obtain ⟨rfl, happend⟩ := split_unique hkey hkey' hbefore hbefore' hfree
      rw [ih (happend ▸ hrest')]
    | missed hmissed _ =>
      exact absurd hkey (hmissed t (hfree ▸ List.mem_append_right before List.mem_cons_self))
  | @missed p free rest m hmissed hrest ih =>
    generalize hfree : free = free' at h'
    cases h' with
    | @taken _ t before after _ _ hkey =>
      exact absurd hkey (hmissed t (hfree ▸ List.mem_append_right before List.mem_cons_self))
    | missed _ hrest' => rw [ih (hfree ▸ hrest')]

/-! ### The plain procedure -/

variable {truths : List GroundTruth} {taken : List Nat}

/-- Taking one more entry of a list whose indices differ takes it out at its place. -/
theorem filter_ne_of_split {before after : List (GroundTruth × Nat)} {e : GroundTruth × Nat}
    (h : ((before ++ e :: after).map (·.2)).Nodup) :
    (before ++ e :: after).filter (fun e' => e'.2 ≠ e.2) = before ++ after := by
  have hother (e' : GroundTruth × Nat) (he' : e' ∈ before ++ after) : e'.2 ≠ e.2 := by
    rw [List.map_append, List.map_cons, List.nodup_middle, ← List.map_append,
      List.nodup_cons] at h
    exact fun hindex => h.1 (hindex ▸ List.mem_map_of_mem he')
  rw [List.filter_append, List.filter_cons_of_neg (by simp), ← List.filter_append,
    List.filter_eq_self.2 fun e' he' => by simpa using hother e' he']

/-- The entries that are not taken, with their indices. -/
def remaining (truths : List GroundTruth) (taken : List Nat) : List (GroundTruth × Nat) :=
  truths.zipIdx.filter fun e => e.2 ∉ taken

theorem remaining_cons (index : Nat) :
    remaining truths (index :: taken) =
      (remaining truths taken).filter fun e => e.2 ≠ index := by
  rw [remaining, remaining, List.filter_filter]
  congr 1
  funext e
  simp

theorem remaining_nodup (truths : List GroundTruth) (taken : List Nat) :
    ((remaining truths taken).map (·.2)).Nodup :=
  zipIdx_filter_nodup truths _

theorem search?_eq_find? (p : TypePrediction) :
    search? truths taken p = (remaining truths taken).find? fun e => e.1.key = p.key := by
  rw [search?, remaining, List.find?_filter]
  congr 1
  funext e
  rw [agrees_eq, Bool.and_comm, decide_not]
  simp

/-- The entry that the search finds is the first one of its key that is not taken. -/
theorem leftover_of_search?_eq_some {p : TypePrediction} {t : GroundTruth} {index : Nat}
    (h : search? truths taken p = some (t, index)) :
    ∃ before after, leftover truths taken = before ++ t :: after ∧
      leftover truths (index :: taken) = before ++ after ∧ t.key = p.key ∧
      ∀ b ∈ before, b.key ≠ p.key := by
  rw [search?_eq_find?, List.find?_eq_some_iff_append] at h
  obtain ⟨hkey, before, after, hsplit, hbefore⟩ := h
  have hnodup := remaining_nodup truths taken
  refine ⟨before.map (·.1), after.map (·.1), ?_, ?_, by simpa using hkey, ?_⟩
  · change (remaining truths taken).map _ = _
    rw [hsplit, List.map_append, List.map_cons]
  · change (remaining truths (index :: taken)).map _ = _
    rw [hsplit] at hnodup
    rw [remaining_cons, hsplit, filter_ne_of_split hnodup, List.map_append]
  · rw [List.forall_mem_map]
    intro e he
    simpa using hbefore e he

theorem leftover_of_search?_eq_none {p : TypePrediction} (h : search? truths taken p = none) :
    ∀ t ∈ leftover truths taken, t.key ≠ p.key := by
  rw [search?_eq_find?, List.find?_eq_none] at h
  rw [leftover, List.forall_mem_map]
  intro e he
  simpa using h e he

/-- The plain procedure is a run on the entries that are not taken. -/
theorem run_scan (truths : List GroundTruth) (taken : List Nat)
    (predictions : List TypePrediction) :
    Run predictions (leftover truths taken) (scan truths taken predictions) := by
  induction predictions generalizing taken with
  | nil => exact .nil _
  | cons p rest ih =>
    rw [scan]
    cases hsearch : search? truths taken p with
    | none => exact .missed (leftover_of_search?_eq_none hsearch) (ih taken)
    | some found =>
      obtain ⟨t, index⟩ := found
      obtain ⟨before, after, hfree, hrest, hkey, hbefore⟩ := leftover_of_search?_eq_some hsearch
      rw [hfree]
      exact .taken hkey hbefore (hrest ▸ ih (index :: taken))

end FirstFit

namespace MatchSet

theorem ofPredictions_eq_scan (predictions : List TypePrediction) (truths : List GroundTruth) :
    ofPredictions predictions truths = FirstFit.scan truths [] predictions := by
  rw [ofPredictions, (TruthQueues.hold_ofTruths truths).scan_eq predictions]
  rfl

theorem run_ofPredictions (predictions : List TypePrediction) (truths : List GroundTruth) :
    FirstFit.Run predictions truths (ofPredictions predictions truths) := by
  have hall : FirstFit.leftover truths [] = truths := by
    simp only [FirstFit.leftover, List.not_mem_nil, not_false_eq_true, decide_true,
      List.filter_true, List.zipIdx_map_fst]
  have hrun := FirstFit.run_scan truths [] predictions
  rwa [hall, ← ofPredictions_eq_scan] at hrun

/-- The matching of predictions to a ground truth is the result of their run. -/
theorem run_iff {predictions : List TypePrediction} {truths : List GroundTruth} {m : MatchSet} :
    FirstFit.Run predictions truths m ↔ m = ofPredictions predictions truths :=
  ⟨fun h => h.unique (run_ofPredictions predictions truths),
    fun h => h ▸ run_ofPredictions predictions truths⟩

end MatchSet

end TypeBench
