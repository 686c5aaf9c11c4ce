import TypeBench.Proofs.Approach.Distinct
import TypeBench.Proofs.Approach.Seeding
import TypeBench.Proofs.Number.Dyadic
import TypeBench.Proofs.Number.NonNegative

/-!
# Reachable baselines

Options are taken over one by one, so a call that is refused may have changed a baseline all the
same. Each option is checked before it is taken over, though: however a baseline was used, it has
labels and a probability between zero and one. A draw stays below one and is never negative. So a
probability of one is above every draw and one of zero above none, whatever the generator is.

## Main definitions

* `Baseline.Reachable`: a baseline after any calls.
* `Baseline.IsSound`: what the settings of a baseline satisfy.

## Main results

* `Twister.share_mem`: a draw is at least zero and below one.
* `Baseline.IsSound.configure`: setting a baseline up keeps its settings sound in any case.
* `Baseline.exists_labelled`: what may be drawn for occurrences.
* `Baseline.predict_reachable`: the settings and predictions of a baseline that was used.
-/

namespace TypeBench

open List

/-! ### Draws of a share -/

namespace Twister

/-- The steps of a draw are 27 bits of one word over 26 of the next. -/
theorem shareStep_lt (t : Twister) : t.shareStep.1 < 2 ^ 53 := by
  rw [shareStep]
  generalize t.word = first
  obtain ⟨a, t⟩ := first
  dsimp only
  generalize t.word = second
  obtain ⟨b, t⟩ := second
  dsimp only
  have ha : (a >>> 5).toNat < 2 ^ 27 := by
    have hword := a.toNat_lt
    have hshift : (a >>> 5).toNat = a.toNat / 2 ^ 5 := by
      rw [UInt32.toNat_shiftRight]
      exact Nat.shiftRight_eq_div_pow _ 5
    omega
  have hb : (b >>> 6).toNat < 2 ^ 26 := by
    have hword := b.toNat_lt
    have hshift : (b >>> 6).toNat = b.toNat / 2 ^ 6 := by
      rw [UInt32.toNat_shiftRight]
      exact Nat.shiftRight_eq_div_pow _ 6
    omega
  have hpow : Nat.pow 2 26 = 2 ^ 26 := rfl
  rw [hpow]
  omega

/-- **Draws of a share.** They are not negative, and below one. -/
theorem share_mem (t : Twister) :
    Quantity.le Quantity.zero t.share.1 = true ∧ t.share.1.lt 1 = true := by
  have hlt := t.shareStep_lt
  rw [share]
  generalize t.shareStep = step at hlt ⊢
  dsimp only
  rw [shareSteps]
  exact ⟨Binary64.zero_le_ofRatio _ _, Binary64.ofRatio_lt_one hlt (Nat.le_refl 53)⟩

end Twister

namespace Baseline

/-! ### Sound settings -/

/-- The settings of a baseline: there are labels, and the probability is between zero and one. -/
structure IsSound (b : Baseline) : Prop where
  labels : b.labels ≠ []
  nonnegative : Binary64.le 0 b.probability = true
  le_one : b.probability.le 1 = true

theorem IsSound.congr {b b' : Baseline} (h : b.IsSound) (hsetup : b'.setup = b.setup) :
    b'.IsSound := by
  obtain ⟨-, hlabels, hprobability, -⟩ := Setup.mk.inj hsetup
  exact ⟨hlabels ▸ h.labels, hprobability ▸ h.nonnegative, hprobability ▸ h.le_one⟩

theorem isSound_start (name : Text) (entropy : Twister) : (start name entropy).IsSound where
  labels := List.cons_ne_nil _ _
  nonnegative := by
    change Binary64.le 0 1 = true
    decide +kernel
  le_one := by
    change Binary64.le 1 1 = true
    decide +kernel

theorem readLabels_ne_nil {value : Value} {labels : List Text} (h : readLabels value = .ok labels) :
    labels ≠ [] := by
  rw [readLabels] at h
  split at h
  · cases h
  · cases h
  · next items hitems _ =>
    obtain rfl := Except.ok.inj h
    exact fun hnil => hitems (List.map_eq_nil_iff.1 hnil)

theorem readProbability_mem {value : Value} {p : Binary64} (h : readProbability value = .ok p) :
    Binary64.le 0 p = true ∧ p.le 1 = true := by
  rw [readProbability.eq_def] at h
  split at h
  · next i =>
    split at h
    · next hi =>
      obtain rfl := Except.ok.inj h
      obtain rfl | rfl : i = 0 ∨ i = 1 := by omega
      · decide +kernel
      · decide +kernel
    · cases h
  · next x =>
    split at h
    · next hx =>
      obtain rfl := Except.ok.inj h
      exact Bool.and_eq_true_iff.1 hx
    · cases h
  · cases h

theorem IsSound.takeAll {b : Baseline} (h : b.IsSound) (options : Options) :
    (takeAll b (steps options)).1.IsSound := by
  obtain ⟨settings, fault?, hkept, -, htake⟩ := exists_taken options
  rw [htake]
  have hprobability : Binary64.le 0 (((given options).only settings).apply b).probability = true ∧
      (((given options).only settings).apply b).probability.le 1 = true := by
    rw [Override.apply]
    cases hgiven : ((given options).only settings).probability with
    | none => exact ⟨h.nonnegative, h.le_one⟩
    | some p =>
      obtain ⟨value, -, hread⟩ := exists_readProbability hkept hgiven
      exact readProbability_mem hread
  refine ⟨?_, hprobability.1, hprobability.2⟩
  rw [Override.apply]
  cases hgiven : ((given options).only settings).labels with
  | none => exact h.labels
  | some labels =>
    obtain ⟨value, -, hread⟩ := exists_readLabels hkept hgiven
    exact readLabels_ne_nil hread

/-- Setting a baseline up keeps its settings sound, also where an option or the parser refuses. -/
theorem IsSound.configure {b : Baseline} (h : b.IsSound) (parser : SourceParser)
    (options : Options) : (b.configure parser options).approach.IsSound := by
  have htaken := h.takeAll options
  rw [Baseline.configure]
  generalize Baseline.takeAll b (steps options) = taken at htaken ⊢
  obtain ⟨c, _ | ⟨option, fault⟩⟩ := taken
  · have hreseeded : c.reseeded.IsSound := htaken.congr (setup_reseeded c)
    dsimp only
    cases parser.ready with
    | error failure => exact hreseeded
    | ok _ => exact hreseeded
  · exact htaken

/-! ### Reachable baselines -/

/-- A baseline after calls that set it up with any options, ask it for predictions or dispose of
it, in any order, whatever comes of them. The parser may be another one at each call. -/
inductive Reachable (name : Text) : Baseline → Prop
  | start (entropy : Twister) : Reachable name (start name entropy)
  | configure {b : Baseline} (h : Reachable name b) (parser : SourceParser) (options : Options) :
      Reachable name (b.configure parser options).approach
  | predict {b : Baseline} (h : Reachable name b) (parser : SourceParser) (source : Text)
      (file : Option Text) : Reachable name (b.predict parser source file).approach
  | dispose {b : Baseline} (h : Reachable name b) : Reachable name b.dispose.approach

/-- The settings of a baseline are sound, however it was used. -/
theorem Reachable.isSound {name : Text} {b : Baseline} (h : Reachable name b) : b.IsSound := by
  induction h with
  | start entropy => exact isSound_start name entropy
  | configure _ parser options ih => exact ih.configure parser options
  | predict _ parser source file ih => exact ih.congr (setup_predict parser source file _)
  | dispose _ ih => exact ih

/-! ### Labels for occurrences -/

/-- **Labels for occurrences.** What is drawn for occurrences are labels of the list, for some of
the occurrences in their order: for all of them if the probability is one, and for none if it is
zero. -/
theorem exists_labelled {labels : List Text} (hlabels : labels ≠ []) (probability : Binary64)
    (os : List Occurrence) (g : Twister) :
    ∃ labelled : List (Text × Occurrence),
      (draw labels probability os g).1 = labelled.map (fun x => .ofOccurrence x.1 x.2) ∧
      labelled.map (·.2) <+ os ∧ (∀ x ∈ labelled, x.1 ∈ labels) ∧
      (Binary64.le 1 probability = true → labelled.map (·.2) = os) ∧
      (probability.le 0 = true → labelled = []) := by
  obtain ⟨picks, g', hdraw, hplaces, hsublist, hall, hnone⟩ :=
    exists_picks_draw labels.length probability os g
  have hoccurrences : (picks.map fun pick => (labels.getD pick.1 [], pick.2)).map (·.2) =
      picks.map (·.2) := List.map_map
  refine ⟨picks.map fun pick => (labels.getD pick.1 [], pick.2), ?_, ?_, ?_, ?_, ?_⟩
  · rw [hdraw labels rfl, map_atPlace]
  · rw [hoccurrences]
    exact hsublist
  · refine List.forall_mem_map.2 fun pick hpick => ?_
    have hlt := hplaces (List.length_pos_iff.2 hlabels) pick hpick
    rw [List.getD_eq_getElem?_getD, List.getElem?_eq_getElem hlt]
    exact List.getElem_mem hlt
  · intro hone
    rw [hoccurrences]
    exact hall fun t => Binary64.lt_of_lt_of_le t.share_mem.2 hone
  · intro hzero
    rw [hnone fun t => Binary64.not_lt_of_le_zero t.share_mem.1 hzero, List.map_nil]

/-! ### Predictions -/

/-- **Predictions of a reachable baseline.** However a baseline was used, it has labels, and its
probability is between zero and one. In a tree whose places can be read it then predicts labels of
its own for some of the occurrences in their order, whatever its generator is, and tells of no
failure: for all of them if the probability is one, and for none if it is zero. -/
theorem predict_reachable {name : Text} {b : Baseline} (h : Reachable name b) :
    b.labels ≠ [] ∧ (Binary64.le 0 b.probability = true ∧ b.probability.le 1 = true) ∧
    ∀ (g : Twister) (parser : SourceParser) (source : Text) (file : Option Text) (u : SourceUnit),
      parser.parse source = .ok u → (∀ n ∈ u.reached, ¬u.IsUnreadable n) →
      ∃ labelled : List (Text × Occurrence),
        (predict parser source file { b with generator := g }).outcome =
          .ok (labelled.map fun x => .ofOccurrence x.1 x.2) ∧
        (predict parser source file { b with generator := g }).events =
          (if u.tree.errorCount = 0 then []
            else [.syntaxErrors b.name (fileName file) u.tree.errorCount]) ++
          [.predictionsCompleted b.name (fileName file) u.occurrences.length labelled.length] ∧
        labelled.map (·.2) <+ u.occurrences ∧ (∀ x ∈ labelled, x.1 ∈ b.labels) ∧
        (Binary64.le 1 b.probability = true → labelled.map (·.2) = u.occurrences) ∧
        (b.probability.le 0 = true → labelled = []) := by
  have hsound := h.isSound
  refine ⟨hsound.labels, ⟨hsound.nonnegative, hsound.le_one⟩, ?_⟩
  intro g parser source file u hparse hreadable
  obtain ⟨labelled, hdraw, hlabelled⟩ :=
    exists_labelled hsound.labels b.probability u.occurrences g
  refine ⟨labelled, ?_, ?_, hlabelled⟩
  · rw [outcome_predict_of_ok file _ hparse, ← u.found_trace]
    exact congrArg Except.ok hdraw
  · have hevents : (predict parser source file { b with generator := g }).events =
        (predictUnit (fileName file) u { b with generator := g }).events := by
      rw [predict, hparse]
    have hfailure : u.trace.failure = none := SourceUnit.failure_trace_eq_none_iff.2 hreadable
    rw [hevents, events_predictUnit, lastEvent, hfailure, ← u.found_trace]
    change _ ++ [ApproachEvent.predictionsCompleted b.name (fileName file) u.occurrences.length
      (draw b.labels b.probability u.occurrences g).1.length] = _
    rw [hdraw, List.length_map]
    rfl

/-- Options whose labels are taken over before their probability is refused. -/
def refusedOptions : Options :=
  [(labelsOption, .list [.text "number"]), (probabilityOption, .int 2)]

/-- A baseline that refused options, though not the labels among them. -/
def refused : Baseline :=
  ((start defaultName eager.entropy).configure lostParser refusedOptions).approach

/-- Both identifiers of the source are predicted with the label that was taken over. -/
theorem predict_reachable_refused :
    Reachable defaultName refused ∧ refused.labels = [Text.ofString "number"] ∧
    (∀ n ∈ umlautLines.reached, ¬umlautLines.IsUnreadable n) ∧
    ∃ (b : Baseline) (predictions : List TypePrediction),
      b = { refused with generator := eager.generator } ∧
      (b.predict ⟨.ok (), fun _ => .ok umlautLines⟩ SourceUnit.umlautSource none).outcome =
        .ok predictions ∧
      predictions.map (fun p => (p.identifier, p.label)) =
        [(Text.ofString "é", Text.ofString "number"), (Text.ofString "ü", Text.ofString "number")] ∧
      (b.predict ⟨.ok (), fun _ => .ok umlautLines⟩ SourceUnit.umlautSource none).events =
        [.predictionsCompleted refused.name unknownFile 2 2] := by
  have hreachable : Reachable defaultName refused :=
    (Reachable.start eager.entropy).configure lostParser refusedOptions
  have hlabels : refused.labels = [Text.ofString "number"] := rfl
  have hreadable : ∀ n ∈ umlautLines.reached, ¬umlautLines.IsUnreadable n := by decide +kernel
  obtain ⟨-, -, hpredict⟩ := predict_reachable hreachable
  obtain ⟨labelled, houtcome, hevents, -, hmem, hall, -⟩ := hpredict eager.generator
    ⟨.ok (), fun _ => .ok umlautLines⟩ SourceUnit.umlautSource none umlautLines rfl hreadable
  have hprobability : refused.probability = 1 := rfl
  have hone : Binary64.le 1 refused.probability = true := by
    rw [hprobability]
    decide +kernel
  have hoccurrences : labelled.map (·.2) = umlautLines.occurrences := hall hone
  have hnames : umlautLines.occurrences.map (·.name) = [Text.ofString "é", Text.ofString "ü"] := by
    decide +kernel
  obtain ⟨x, y, rfl⟩ : ∃ x y, labelled = [x, y] := by
    refine List.length_eq_two.1 ?_
    rw [← List.length_map (·.2), hoccurrences, ← List.length_map (·.name), hnames]
    rfl
  rw [← hoccurrences] at hevents hnames
  simp only [hlabels, List.mem_cons, List.not_mem_nil, or_false, forall_eq_or_imp, forall_eq]
    at hmem
  have hfaultless : umlautLines.tree.errorCount = 0 := by decide +kernel
  rw [if_pos hfaultless] at hevents
  refine ⟨hreachable, hlabels, hreadable, _, _, rfl, houtcome, ?_, hevents⟩
  simp only [List.map_cons, List.map_nil, List.cons.injEq, and_true] at hnames
  simp only [List.map_cons, List.map_nil, TypePrediction.ofOccurrence, hmem, hnames]

end Baseline

end TypeBench
