import TypeBench.Proofs.Matching.Conservation

/-!
# Groups of predictions

Predictions and entries that share no key do not meet in a matching. So two groups without a common
key are matched on their own, and what they come to is merged in their order. Nothing but the
equality of keys is looked at, so identifiers may be renamed as long as different ones stay
different.

## Main definitions

* `MatchSet.map`: a matching of other predictions and entries.
* `TypePrediction.renamed`, `GroundTruth.renamed`, `MatchSet.renamed`: other identifiers.
* `MatchSet.keysOf`: the keys of a group.
* `MatchSet.concat`: matchings one after the other.

## Main results

* `FirstFit.Run.map`, `FirstFit.Run.renamed`: a run of other items, or with other identifiers.
* `FirstFit.Run.append_free`, `FirstFit.Run.prepend_free`: entries of other keys stand beside a run.
* `FirstFit.Run.merge`: the run of two groups is that of the first one and that of the second one.
* `MatchSet.ofPredictions_append`: the matching of groups without a common key.
-/

namespace TypeBench

/-- A matching of other predictions and entries, each in the place of one. -/
def MatchSet.map (g : TypePrediction → TypePrediction) (k : GroundTruth → GroundTruth)
    (m : MatchSet) : MatchSet where
  found := m.found.map fun x => ⟨g x.prediction, k x.truth⟩
  unmatchedPredictions := m.unmatchedPredictions.map g
  unmatchedTruths := m.unmatchedTruths.map k

/-! ### Other identifiers -/

/-- A prediction for another identifier. -/
def TypePrediction.renamed (f : Text → Text) (p : TypePrediction) : TypePrediction :=
  { p with identifier := f p.identifier }

/-- An entry for another identifier. -/
def GroundTruth.renamed (f : Text → Text) (t : GroundTruth) : GroundTruth :=
  { t with identifier := f t.identifier }

/-- A match of another identifier. -/
def TypeMatch.renamed (f : Text → Text) (x : TypeMatch) : TypeMatch :=
  ⟨x.prediction.renamed f, x.truth.renamed f⟩

/-- A matching of other identifiers. -/
def MatchSet.renamed (f : Text → Text) (m : MatchSet) : MatchSet where
  found := m.found.map (·.renamed f)
  unmatchedPredictions := m.unmatchedPredictions.map (·.renamed f)
  unmatchedTruths := m.unmatchedTruths.map (·.renamed f)

/-- Different identifiers stay different, so the same keys are equal. -/
theorem GroundTruth.renamed_key_eq_iff {f : Text → Text} (hf : Function.Injective f)
    (t : GroundTruth) (p : TypePrediction) :
    (t.renamed f).key = (p.renamed f).key ↔ t.key = p.key := by
  simp only [GroundTruth.key, TypePrediction.key, GroundTruth.renamed, TypePrediction.renamed,
    MatchKey.mk.injEq, hf.eq_iff]

namespace FirstFit

variable {predictions more : List TypePrediction} {free others : List GroundTruth} {m m' : MatchSet}

/-- A run looks at nothing but the equality of keys. -/
theorem Run.map {g : TypePrediction → TypePrediction} {k : GroundTruth → GroundTruth}
    (hkey : ∀ t p, (k t).key = (g p).key ↔ t.key = p.key) (h : Run predictions free m) :
    Run (predictions.map g) (free.map k) (m.map g k) := by
  induction h with
  | nil => exact .nil _
  | taken htaken hbefore _ ih =>
    rw [List.map_append, List.map_cons]
    refine .taken ((hkey _ _).2 htaken) ?_ (List.map_append ▸ ih)
    exact List.forall_mem_map.2 fun b hb heq => hbefore b hb ((hkey _ _).1 heq)
  | missed hfree _ ih =>
    exact .missed (List.forall_mem_map.2 fun t ht heq => hfree t ht ((hkey _ _).1 heq)) ih

/-- A run with other identifiers comes to the same matching of other identifiers. -/
theorem Run.renamed {f : Text → Text} (hf : Function.Injective f) (h : Run predictions free m) :
    Run (predictions.map (·.renamed f)) (free.map (·.renamed f)) (m.renamed f) :=
  h.map (GroundTruth.renamed_key_eq_iff hf)

/-! ### Entries of other keys -/

/-- Entries of other keys may follow those of a run, and are left over. -/
theorem Run.append_free (h : Run predictions free m)
    (hothers : ∀ p ∈ predictions, ∀ u ∈ others, u.key ≠ p.key) :
    Run predictions (free ++ others) { m with unmatchedTruths := m.unmatchedTruths ++ others } := by
  induction h with
  | nil => exact .nil _
  | taken hkey hbefore _ ih =>
    have hrest := ih fun p hp => hothers p (List.mem_cons_of_mem _ hp)
    rw [List.append_assoc] at hrest ⊢
    exact .taken hkey hbefore hrest
  | missed hfree _ ih =>
    refine .missed ?_ (ih fun p hp => hothers p (List.mem_cons_of_mem _ hp))
    exact List.forall_mem_append.2 ⟨hfree, hothers _ List.mem_cons_self⟩

/-- Entries of other keys may come before those of a run, and are left over. -/
theorem Run.prepend_free (h : Run predictions free m)
    (hothers : ∀ p ∈ predictions, ∀ u ∈ others, u.key ≠ p.key) :
    Run predictions (others ++ free) { m with unmatchedTruths := others ++ m.unmatchedTruths } := by
  induction h with
  | nil => exact .nil _
  | taken hkey hbefore _ ih =>
    have hrest := ih fun p hp => hothers p (List.mem_cons_of_mem _ hp)
    rw [← List.append_assoc] at hrest ⊢
    exact .taken hkey (List.forall_mem_append.2 ⟨hothers _ List.mem_cons_self, hbefore⟩) hrest
  | missed hfree _ ih =>
    refine .missed ?_ (ih fun p hp => hothers p (List.mem_cons_of_mem _ hp))
    exact List.forall_mem_append.2 ⟨hothers _ List.mem_cons_self, hfree⟩

/-! ### Two groups -/

/-- More predictions go on with the entries that earlier ones left over. -/
theorem Run.append (h : Run predictions free m) (h' : Run more m.unmatchedTruths m') :
    Run (predictions ++ more) free
      ⟨m.found ++ m'.found, m.unmatchedPredictions ++ m'.unmatchedPredictions,
        m'.unmatchedTruths⟩ := by
  induction h with
  | nil => exact h'
  | taken hkey hbefore _ ih => exact .taken hkey hbefore (ih h')
  | missed hfree _ ih => exact .missed hfree (ih h')

/-- Groups that do not meet: the run of both is that of the first one and that of the second one. -/
theorem Run.merge (h : Run predictions free m) (h' : Run more others m')
    (hothers : ∀ p ∈ predictions, ∀ u ∈ others, u.key ≠ p.key)
    (hfree : ∀ q ∈ more, ∀ t ∈ free, t.key ≠ q.key) :
    Run (predictions ++ more) (free ++ others) (m.merge m') := by
  have hleft : ∀ q ∈ more, ∀ t ∈ m.unmatchedTruths, t.key ≠ q.key := fun q hq t ht =>
    hfree q hq t (h.perm_truths.subset (List.mem_append_right _ ht))
  exact (h.append_free hothers).append (h'.prepend_free hleft)

end FirstFit

namespace MatchSet

/-- The keys of a group of predictions and entries. -/
def keysOf (predictions : List TypePrediction) (truths : List GroundTruth) : List MatchKey :=
  predictions.map (·.key) ++ truths.map (·.key)

/-- Groups without a common key are matched on their own. -/
theorem ofPredictions_append {ps qs : List TypePrediction} {ts us : List GroundTruth}
    (h : (keysOf ps ts).Disjoint (keysOf qs us)) :
    ofPredictions (ps ++ qs) (ts ++ us) = (ofPredictions ps ts).merge (ofPredictions qs us) := by
  have hothers : ∀ p ∈ ps, ∀ u ∈ us, u.key ≠ p.key := fun p hp u hu hkey =>
    h (List.mem_append_left _ (List.mem_map_of_mem hp))
      (List.mem_append_right _ (hkey ▸ List.mem_map_of_mem hu))
  have hfree : ∀ q ∈ qs, ∀ t ∈ ts, t.key ≠ q.key := fun q hq t ht hkey =>
    h (List.mem_append_right _ (List.mem_map_of_mem ht))
      (List.mem_append_left _ (hkey ▸ List.mem_map_of_mem hq))
  exact (run_iff.1 ((run_ofPredictions ps ts).merge (run_ofPredictions qs us) hothers hfree)).symm

/-! ### Several groups -/

@[simp] theorem merge_empty (m : MatchSet) : m.merge empty = m := by
  simp only [merge, empty, List.append_nil]

theorem merge_assoc (a b c : MatchSet) : (a.merge b).merge c = a.merge (b.merge c) := by
  simp only [merge, List.append_assoc]

/-- Matchings one after the other. -/
def concat (ms : List MatchSet) : MatchSet := ms.foldr merge empty

@[simp] theorem concat_nil : concat [] = empty := rfl

@[simp] theorem concat_cons (m : MatchSet) (ms : List MatchSet) :
    concat (m :: ms) = m.merge (concat ms) := rfl

end MatchSet

end TypeBench
