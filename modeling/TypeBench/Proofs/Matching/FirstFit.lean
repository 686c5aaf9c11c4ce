import Mathlib.Tactic.SplitIfs
import TypeBench.Score.Matching

/-!
# Matching by first fit

The plain way to match goes through the predictions in order and searches the whole ground truth for
each of them. A prediction takes the first entry that agrees with it and that no prediction before
it has taken, or it is left over. The matching by queues never searches. It finds the same partners
because at every moment the queue of a key holds the indices of the free entries of that key, in
rising order.

## Main definitions

* `FirstFit.agrees`, `FirstFit.search?`: the entries that a prediction may take, and the first one.
* `FirstFit.scan`, `FirstFit.matching`: the plain procedure.
* `FirstFit.free`: the indices of the free entries of a key.
* `TruthQueues.Hold`: the invariant of the queues.

## Main results

* `TruthQueues.hold_ofTruths`: the queues of a ground truth hold all its indices.
* `TruthQueues.Hold.take`: taking an index from a queue takes the entry that the search finds.
* `TruthQueues.Hold.scan_eq`: from queues that hold what is free, claiming is the plain procedure.
* `MatchSet.ofPredictions_eq_firstFit`: matching by queues is matching by first fit.
-/

namespace TypeBench

/-! ### The plain procedure -/

namespace FirstFit

/-- Whether an entry has the identifier, the line and the column of a prediction. -/
def agrees (p : TypePrediction) (t : GroundTruth) : Bool :=
  t.identifier = p.identifier && t.position.line = p.position.line &&
    t.position.column = p.position.column

/-- The first entry that agrees with a prediction and is not taken, with its index. -/
def search? (truths : List GroundTruth) (taken : List Nat) (p : TypePrediction) :
    Option (GroundTruth × Nat) :=
  truths.zipIdx.find? fun e => agrees p e.1 && e.2 ∉ taken

/-- The entries that are not taken, in order. -/
def leftover (truths : List GroundTruth) (taken : List Nat) : List GroundTruth :=
  (truths.zipIdx.filter fun e => e.2 ∉ taken).map (·.1)

/-- The plain procedure, after the entries with some indices are taken. -/
def scan (truths : List GroundTruth) (taken : List Nat) : List TypePrediction → MatchSet
  | [] => ⟨[], [], leftover truths taken⟩
  | p :: rest =>
    match search? truths taken p with
    | some (t, index) =>
      let m := scan truths (index :: taken) rest
      { m with found := ⟨p, t⟩ :: m.found }
    | none =>
      let m := scan truths taken rest
      { m with unmatchedPredictions := p :: m.unmatchedPredictions }

/-- The plain procedure: each prediction in order takes the first free entry that agrees with it. -/
def matching (predictions : List TypePrediction) (truths : List GroundTruth) : MatchSet :=
  scan truths [] predictions

theorem agrees_eq (p : TypePrediction) (t : GroundTruth) :
    agrees p t = decide (t.key = p.key) := by
  simp [agrees, GroundTruth.key, TypePrediction.key, Bool.and_assoc]

/-! ### Free entries -/

/-- The indices of the entries of a key that are not taken, in rising order. -/
def free (truths : List GroundTruth) (taken : List Nat) (key : MatchKey) : List Nat :=
  (truths.zipIdx.filter fun e => e.1.key = key && e.2 ∉ taken).map (·.2)

variable {truths : List GroundTruth} {taken : List Nat}

theorem mem_free {key : MatchKey} {index : Nat} :
    index ∈ free truths taken key ↔
      (∃ t, truths[index]? = some t ∧ t.key = key) ∧ index ∉ taken := by
  simp only [free, List.mem_map, List.mem_filter, Bool.and_eq_true, decide_eq_true_eq, Prod.exists,
    List.mk_mem_zipIdx_iff_getElem?, exists_eq_right]
  constructor
  · rintro ⟨t, ht, hkey, hfree⟩
    exact ⟨⟨t, ht, hkey⟩, hfree⟩
  · rintro ⟨⟨t, ht, hkey⟩, hfree⟩
    exact ⟨t, ht, hkey, hfree⟩

/-- Entries are numbered differently. -/
theorem zipIdx_filter_nodup (truths : List GroundTruth) (test : GroundTruth × Nat → Bool) :
    ((truths.zipIdx.filter test).map (·.2)).Nodup := by
  have hall : (truths.zipIdx.map (·.2)).Nodup := by
    rw [List.zipIdx_map_snd]
    exact List.nodup_range'
  exact hall.sublist (List.filter_sublist.map _)

theorem free_nodup (key : MatchKey) : (free truths taken key).Nodup :=
  zipIdx_filter_nodup truths _

theorem free_cons (index : Nat) (key : MatchKey) :
    free truths (index :: taken) key = (free truths taken key).filter (· ≠ index) := by
  simp only [free, List.filter_map, List.filter_filter, Function.comp_def]
  congr 2
  funext e
  by_cases h : e.2 = index <;> simp [h]

/-- The search finds the entry of the first free index. -/
theorem search?_of_free {p : TypePrediction} {index : Nat} {rest : List Nat}
    (h : free truths taken p.key = index :: rest) :
    ∃ t, truths[index]? = some t ∧ search? truths taken p = some (t, index) := by
  obtain ⟨⟨t, i⟩, others, hfilter, rfl, -⟩ := List.map_eq_cons_iff.1 h
  have hsearch : search? truths taken p = some (t, i) := by
    simp only [search?, agrees_eq]
    rw [← List.head?_filter, hfilter]
    rfl
  exact ⟨t, List.mem_zipIdx_iff_getElem?.1 (List.mem_of_find?_eq_some hsearch), hsearch⟩

theorem search?_of_free_eq_nil {p : TypePrediction} (h : free truths taken p.key = []) :
    search? truths taken p = none := by
  simp only [search?, agrees_eq]
  rw [← List.head?_filter, List.map_eq_nil_iff.1 h]
  rfl

end FirstFit

/-! ### The queues -/

namespace TruthQueues

open FirstFit

/-- Queues hold what is free: for each key the indices of its free entries, in rising order. -/
def Hold (truths : List GroundTruth) (taken : List Nat) (queues : TruthQueues) : Prop :=
  ∀ key, Groups.items key queues = free truths taken key

theorem take?_eq_none {key : MatchKey} {queues : TruthQueues} (h : take? key queues = none) :
    Groups.items key queues = [] := by
  induction queues with
  | nil => rfl
  | cons entry rest ih =>
    obtain ⟨other, indices⟩ := entry
    simp only [take?] at h
    rw [Groups.items_cons]
    split_ifs at h ⊢ with hkey
    · cases indices with
      | nil => rfl
      | cons index indices => cases h
    · exact ih (Option.map_eq_none_iff.1 h)

/-- Taking an index shortens its own queue alone. -/
theorem take?_eq_some {key : MatchKey} {queues after : TruthQueues} {index : Nat}
    (h : take? key queues = some (index, after)) :
    Groups.items key queues = index :: Groups.items key after ∧
      ∀ other, other ≠ key → Groups.items other after = Groups.items other queues := by
  induction queues generalizing after with
  | nil => cases h
  | cons entry rest ih =>
    obtain ⟨first, indices⟩ := entry
    simp only [take?] at h
    split_ifs at h with hkey
    · cases indices with
      | nil => cases h
      | cons i indices =>
        obtain ⟨rfl, rfl⟩ := Prod.mk.inj (Option.some.inj h)
        refine ⟨?_, fun other hother => ?_⟩
        · rw [Groups.items_cons, Groups.items_cons, if_pos hkey, if_pos hkey]
        · have hfirst : first ≠ other := fun e => hother (e.symm.trans hkey)
          rw [Groups.items_cons, Groups.items_cons, if_neg hfirst, if_neg hfirst]
    · obtain ⟨⟨i, others⟩, htake, heq⟩ := Option.map_eq_some_iff.1 h
      obtain ⟨rfl, rfl⟩ := Prod.mk.inj heq
      obtain ⟨hitems, hothers⟩ := ih htake
      refine ⟨?_, fun other hother => ?_⟩
      · rw [Groups.items_cons, Groups.items_cons, if_neg hkey, if_neg hkey, hitems]
      · rw [Groups.items_cons, Groups.items_cons, hothers other hother]

/-- The queues of a ground truth hold all its indices. -/
theorem hold_ofTruths (truths : List GroundTruth) : Hold truths [] (ofTruths truths) := by
  intro key
  rw [ofTruths, Groups.items_foldl_add, Groups.items_nil, List.nil_append]
  simp [free]

variable {truths : List GroundTruth} {taken : List Nat} {queues : TruthQueues}

/-- Taking an index from a queue takes the entry that the search finds, and the queues go on holding
what is free. -/
theorem Hold.take (h : Hold truths taken queues) {p : TypePrediction} {index : Nat}
    {after : TruthQueues} (htake : take? p.key queues = some (index, after)) :
    (∃ t, truths[index]? = some t ∧ search? truths taken p = some (t, index)) ∧
      Hold truths (index :: taken) after := by
  obtain ⟨hitems, hothers⟩ := take?_eq_some htake
  rw [h p.key] at hitems
  obtain ⟨t, ht, hsearch⟩ := search?_of_free hitems
  refine ⟨⟨t, ht, hsearch⟩, fun key => ?_⟩
  rw [free_cons]
  by_cases hkey : key = p.key
  · subst hkey
    have hnew : index ∉ Groups.items p.key after := by
      have hnodup : (free truths taken p.key).Nodup := free_nodup p.key
      rw [hitems] at hnodup
      exact (List.nodup_cons.1 hnodup).1
    rw [hitems, List.filter_cons_of_neg (by simp), List.filter_eq_self.2]
    intro i hi
    simpa using fun e : i = index => hnew (e ▸ hi)
  · rw [hothers key hkey, h key, List.filter_eq_self.2]
    intro i hi
    have hindex : index ∈ free truths taken p.key := hitems ▸ List.mem_cons_self
    have hne : i ≠ index := by
      rintro rfl
      -- An index has one entry, and so one key.
      obtain ⟨⟨t₁, ht₁, hkey₁⟩, -⟩ := mem_free.1 hindex
      obtain ⟨⟨t₂, ht₂, hkey₂⟩, -⟩ := mem_free.1 hi
      obtain rfl : t₁ = t₂ := Option.some.inj (ht₁.symm.trans ht₂)
      exact hkey (hkey₂.symm.trans hkey₁)
    simpa using hne

/-- From queues that hold what is free, claiming is the plain procedure. The entries left over are
those taken neither before nor by a claim. -/
theorem Hold.scan_eq (h : Hold truths taken queues) (predictions : List TypePrediction) :
    scan truths taken predictions =
      { MatchSet.ofClaims truths (queues.claims predictions) with
        unmatchedTruths :=
          leftover truths (taken ++ (queues.claims predictions).filterMap (·.2)) } := by
  induction predictions generalizing taken queues with
  | nil => simp [scan, claims, MatchSet.ofClaims]
  | cons p rest ih =>
    rw [scan, claims]
    cases htake : take? p.key queues with
    | none =>
      have hsearch := search?_of_free_eq_nil ((h p.key).symm.trans (take?_eq_none htake))
      simp only [hsearch, ih h]
      simp [MatchSet.ofClaims, MatchSet.matchOf?, MatchSet.unclaiming?, List.filterMap_cons]
    | some found =>
      obtain ⟨index, after⟩ := found
      obtain ⟨⟨t, ht, hsearch⟩, hafter⟩ := h.take htake
      simp only [hsearch, ih hafter]
      simp only [MatchSet.ofClaims, MatchSet.matchOf?, MatchSet.unclaiming?, ht,
        List.filterMap_cons, Option.map_some, MatchSet.mk.injEq, true_and]
      simp only [leftover, List.mem_append, List.mem_cons]
      congr 2
      funext e
      congr 1
      simp [or_assoc, or_left_comm]

end TruthQueues

/-! ### Both ways to match -/

/-- **Matching by queues is matching by first fit.** Every prediction gets the partner that the
plain procedure gives it, and matches, predictions and entries without a partner come in the same
order. -/
theorem MatchSet.ofPredictions_eq_firstFit (predictions : List TypePrediction)
    (truths : List GroundTruth) :
    MatchSet.ofPredictions predictions truths = FirstFit.matching predictions truths := by
  rw [FirstFit.matching, (TruthQueues.hold_ofTruths truths).scan_eq predictions]
  rfl

end TypeBench
