import TypeBench.Proofs.Approach.Indices
import TypeBench.Proofs.Matching.Account
import TypeBench.Proofs.Occurrence.Order

/-!
# Predictions at different places

The baseline predicts at most once for each occurrence, and the places of occurrences rise. So no
two predictions for a source share a key, and a matching cannot leave one of them over in favour of
another one: a prediction has no partner only if the ground truth has no entry of its key.

## Main definitions

* `Occurrence.key`: the key of an occurrence.

## Main results

* `Baseline.draw_eq_map`: predictions are labels for some of the occurrences, in their order.
* `MatchSet.mem_unmatchedPredictions_iff`: what is left over among predictions of different keys.
* `Baseline.predict_distinct`: predictions have different keys and are matched without loss.
-/

namespace TypeBench

open List

/-! ### Keys -/

/-- The key of an occurrence. -/
def Occurrence.key (o : Occurrence) : MatchKey := ⟨o.name, o.position.line, o.position.column⟩

theorem SourcePosition.ne_of_before {p q : SourcePosition} (h : p.before q) :
    ¬(p.line = q.line ∧ p.column = q.column) := by
  rcases h with hline | ⟨-, hcolumn⟩ <;> omega

/-- Occurrences whose places rise have different keys. -/
theorem Occurrence.nodup_keys {os : List Occurrence}
    (h : os.Pairwise fun o o' => o.position.before o'.position) :
    (os.map Occurrence.key).Nodup := by
  refine pairwise_map.2 (h.imp fun hbefore hkey => ?_)
  simp only [Occurrence.key, MatchKey.mk.injEq] at hkey
  exact SourcePosition.ne_of_before hbefore hkey.2

/-! ### Draws -/

namespace Baseline

/-- The predictions are labels for some of the occurrences, in their order. -/
theorem draw_eq_map (labels : List Text) (probability : Binary64) (os : List Occurrence)
    (g : Twister) :
    ∃ labelled : List (Text × Occurrence), labelled.map (·.2) <+ os ∧
      (draw labels probability os g).1 = labelled.map fun x => .ofOccurrence x.1 x.2 := by
  obtain ⟨picks, g', hdraw, -, hsublist, -, -⟩ :=
    exists_picks_draw labels.length probability os g
  refine ⟨picks.map fun pick => (labels.getD pick.1 [], pick.2), ?_, ?_⟩
  · rw [map_map]
    exact hsublist
  · rw [hdraw labels rfl, map_atPlace]

/-- The keys of the predictions are keys of occurrences, in their order. -/
theorem keys_draw_sublist (labels : List Text) (probability : Binary64) (os : List Occurrence)
    (g : Twister) :
    (draw labels probability os g).1.map (·.key) <+ os.map Occurrence.key := by
  obtain ⟨labelled, hsublist, hdraw⟩ := draw_eq_map labels probability os g
  have hkeys := hsublist.map Occurrence.key
  rw [map_map] at hkeys
  rw [hdraw, map_map]
  exact hkeys

end Baseline

/-! ### Matching without loss -/

/-- Among predictions of different keys those are left over whose key no entry has. -/
theorem MatchSet.mem_unmatchedPredictions_iff {predictions : List TypePrediction}
    (h : (predictions.map (·.key)).Nodup) (truths : List GroundTruth) (p : TypePrediction) :
    p ∈ (ofPredictions predictions truths).unmatchedPredictions ↔
      p ∈ predictions ∧ ∀ t ∈ truths, t.key ≠ p.key := by
  have haccounts := accounts_ofPredictions predictions truths
  have hperm := haccounts.predictions_perm
  constructor
  · intro hp
    have hmem : p ∈ predictions := hperm.subset (mem_append_right _ hp)
    refine ⟨hmem, fun t ht hkey => ?_⟩
    -- An entry of the key would give a match of the key, and so a second prediction of it.
    have hfound := (run_ofPredictions predictions truths).count_found p.key
    have hkeys := (hperm.map (·.key)).count_eq p.key
    rw [map_append, map_map, count_append] at hkeys
    have hone := nodup_iff_count_le_one.1 h p.key
    have hprediction := count_pos_iff.2 (mem_map_of_mem (f := (·.key)) hmem)
    have hleft := count_pos_iff.2 (mem_map_of_mem (f := (·.key)) hp)
    have htruth : 0 < (truths.map (·.key)).count p.key :=
      count_pos_iff.2 (hkey ▸ mem_map_of_mem (f := (·.key)) ht)
    simp only [Function.comp_def] at hkeys
    omega
  · rintro ⟨hp, hfree⟩
    refine (mem_append.1 (hperm.symm.subset hp)).resolve_left fun hfound => ?_
    obtain ⟨x, hx, rfl⟩ := mem_map.1 hfound
    have htruth := haccounts.truths_perm.subset (mem_append_left _ (mem_map_of_mem hx))
    exact hfree x.truth htruth (haccounts.keys_eq x hx).symm

/-! ### Predictions -/

namespace Baseline

/-- **Predictions at different places.** In a tree that is laid out in its source, the places of the
occurrences rise. So whatever a baseline predicts for the source has different keys, and in a
matching with any ground truth those predictions are left over whose key no entry has. -/
theorem predict_distinct {source : Text} {u : SourceUnit}
    (hbytes : Utf8.encode source = .ok u.bytes) (hlayout : u.tree.IsLaidOut source) :
    (u.occurrences.Pairwise fun o o' => o.position.before o'.position) ∧
    ∀ (parser : SourceParser) (file : Option Text) (b : Baseline),
      (∀ v, parser.parse source = .ok v → v = u) →
      ∃ predictions : List TypePrediction,
        (b.predict parser source file).outcome = .ok predictions ∧
        (predictions.map (·.key)).Nodup ∧
        ∀ (truths : List GroundTruth) (p : TypePrediction),
          p ∈ (MatchSet.ofPredictions predictions truths).unmatchedPredictions ↔
            p ∈ predictions ∧ ∀ t ∈ truths, t.key ≠ p.key := by
  have hrising := SourceUnit.pairwise_occurrences hbytes hlayout
  refine ⟨hrising, fun parser file b hparse => ?_⟩
  obtain ⟨predictions, houtcome, hkeys⟩ : ∃ predictions : List TypePrediction,
      (b.predict parser source file).outcome = .ok predictions ∧
        (predictions.map (·.key)).Nodup := by
    cases hparsed : parser.parse source with
    | error failure =>
      refine ⟨[], ?_, nodup_nil⟩
      rw [predict, hparsed]
    | ok v =>
      obtain rfl := hparse v hparsed
      refine ⟨_, b.outcome_predict_of_ok file hparsed, ?_⟩
      rw [← v.found_trace]
      exact (Occurrence.nodup_keys hrising).sublist (keys_draw_sublist ..)
  exact ⟨predictions, houtcome, hkeys, MatchSet.mem_unmatchedPredictions_iff hkeys⟩

/-- The source of two lines `é` and `let ü = 1`, with an identifier of two bytes on each. -/
def umlautLines : SourceUnit where
  bytes := Utf8.written SourceUnit.umlautSource
  tree := .node (SourceUnit.sampleInfo "program" 0 13 none)
    [.node (SourceUnit.sampleInfo "expression_statement" 0 2 none)
      [.node (SourceUnit.sampleInfo "identifier" 0 2 none) []],
      .node (SourceUnit.sampleInfo "lexical_declaration" 3 13 none)
        [.node (SourceUnit.sampleInfo "variable_declarator" 7 13 none)
          [.node (SourceUnit.sampleInfo "identifier" 7 9 (some "name")) []]]]

/-- An entry for the second identifier. -/
def umlautTruth : GroundTruth := ⟨Text.ofString "ü", "number", ⟨2, 4, Nat.zero_lt_two⟩, "global"⟩

/-- Both identifiers are predicted, and the one that has no entry is left over. -/
theorem predict_distinct_umlautLines :
    Utf8.encode SourceUnit.umlautSource = .ok umlautLines.bytes ∧
    umlautLines.tree.IsLaidOut SourceUnit.umlautSource ∧
    ∃ predictions : List TypePrediction,
      (eager.predict ⟨.ok (), fun _ => .ok umlautLines⟩ SourceUnit.umlautSource none).outcome =
        .ok predictions ∧
      predictions.map (·.key) = [⟨Text.ofString "é", 1, 0⟩, ⟨Text.ofString "ü", 2, 4⟩] ∧
      (predictions.map (·.key)).Nodup ∧
      ∀ p ∈ predictions,
        p ∈ (MatchSet.ofPredictions predictions [umlautTruth]).unmatchedPredictions ↔
          p.key ≠ umlautTruth.key := by
  have hbytes : Utf8.encode SourceUnit.umlautSource = .ok umlautLines.bytes :=
    Utf8.encode_eq_ok (by decide +kernel)
  have hlayout : umlautLines.tree.IsLaidOut SourceUnit.umlautSource := by decide +kernel
  obtain ⟨-, hpredict⟩ := predict_distinct hbytes hlayout
  obtain ⟨predictions, houtcome, hdistinct, hleft⟩ :=
    hpredict ⟨.ok (), fun _ => .ok umlautLines⟩ none eager fun v h => (Except.ok.inj h).symm
  have hkeys : predictions.map (·.key) =
      [⟨Text.ofString "é", 1, 0⟩, ⟨Text.ofString "ü", 2, 4⟩] := by
    rw [outcome_predict_of_ok (u := umlautLines) none eager rfl] at houtcome
    rw [← Except.ok.inj houtcome]
    decide +kernel
  refine ⟨hbytes, hlayout, predictions, houtcome, hkeys, hdistinct, fun p hp => ?_⟩
  simp [hleft, hp, eq_comm]

end Baseline

end TypeBench
