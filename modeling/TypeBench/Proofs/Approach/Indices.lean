import Mathlib.Data.List.Forall2
import TypeBench.Proofs.Approach.Prediction

/-!
# Draws of places

What is drawn for an occurrence is a place in the list of labels. How many words the generator gives
for it depends on the length of the list, and not on what the labels are. So a baseline with other
labels, as many of them, predicts for the same occurrences, takes its labels from the same places of
its list, and is left with the same generator. The next source is then predicted in step as well.

## Main definitions

* `Baseline.predictEach`: the predictions for sources, one after the other.
* `TypePrediction.atPlace`: a prediction of the label at a place.

## Main results

* `Baseline.drawFor_cases`: what is drawn for one occurrence, whatever the labels are.
* `Baseline.exists_picks_draw`: what is drawn for occurrences, whatever the labels are.
* `Baseline.predictEach_picks`: what is predicted for sources, whatever the labels are.
-/

namespace TypeBench

open List

/-- The label at a place of a list, as a prediction for an occurrence. -/
def TypePrediction.atPlace (labels : List Text) (pick : Nat × Occurrence) : TypePrediction :=
  .ofOccurrence (labels.getD pick.1 []) pick.2

namespace Baseline

/-! ### Draws -/

/-- Nothing is drawn for an occurrence if the probability is not above the draw, and else a place in
the list of labels. The place and the generator after it are the same for all lists of one
length. -/
theorem drawFor_cases (count : Nat) (probability : Binary64) (o : Occurrence) (g : Twister) :
    (g.share.1.lt probability = false ∧
        ∃ g', ∀ labels, drawFor labels probability o g = (none, g')) ∨
      g.share.1.lt probability = true ∧
        ∃ i g', (0 < count → i < count) ∧ ∀ labels : List Text, labels.length = count →
          drawFor labels probability o g = (some (.atPlace labels (i, o)), g') := by
  -- The definitions are opened before they are applied, so that nothing runs the generator.
  generalize hdraw : @drawFor = f
  delta drawFor drawChoice at hdraw
  subst hdraw
  beta_reduce
  generalize g.share = share
  obtain ⟨drawn, g⟩ := share
  dsimp only
  cases drawn.lt probability with
  | false => exact .inl ⟨rfl, g, fun _ => rfl⟩
  | true =>
    have hlt (hpos : 0 < count) := Twister.index_lt hpos g
    have hlabel (labels : List Text) (hlength : labels.length = count) :
        drawLabel labels g = (labels.getD (g.index count).1 [], (g.index count).2) := by
      rw [drawLabel, hlength]
    generalize g.index count = index at hlt hlabel
    refine .inr ⟨rfl, index.1, index.2, hlt, fun labels hlength => ?_⟩
    dsimp only
    rw [hlabel labels hlength]
    rfl

/-- **Draws for occurrences.** The occurrences for which there is a prediction, the places of their
labels and the generator after the draws are the same for all lists of one length. There is a
prediction for all occurrences if the probability is above every draw, and for none if it is above
none. -/
theorem exists_picks_draw (count : Nat) (probability : Binary64) (os : List Occurrence)
    (g : Twister) :
    ∃ (picks : List (Nat × Occurrence)) (g' : Twister),
      (∀ labels : List Text, labels.length = count →
        draw labels probability os g = (picks.map (.atPlace labels), g')) ∧
      (0 < count → ∀ pick ∈ picks, pick.1 < count) ∧ picks.map (·.2) <+ os ∧
      ((∀ t : Twister, t.share.1.lt probability = true) → picks.map (·.2) = os) ∧
      ((∀ t : Twister, t.share.1.lt probability = false) → picks = []) := by
  induction os generalizing g with
  | nil => exact ⟨[], g, fun _ _ => rfl, fun _ => nofun, .slnil, fun _ => rfl, fun _ => rfl⟩
  | cons o os ih =>
    rcases drawFor_cases count probability o g with
      ⟨hchoice, g₁, hfor⟩ | ⟨hchoice, i, g₁, hlt, hfor⟩
    · obtain ⟨picks, g₂, hdraw, hplaces, hsublist, -, hnone⟩ := ih g₁
      refine ⟨picks, g₂, fun labels hlength => ?_, hplaces, hsublist.cons o, fun habove => ?_,
        hnone⟩
      · rw [draw, hfor]
        dsimp only
        rw [hdraw labels hlength]
        rfl
      · cases hchoice.symm.trans (habove g)
    · -- All lists draw the same place, so the later draws start from the same generator.
      obtain ⟨picks, g₂, hdraw, hplaces, hsublist, hall, -⟩ := ih g₁
      refine ⟨(i, o) :: picks, g₂, fun labels hlength => ?_, fun hpos => ?_,
        hsublist.cons_cons o, fun habove => congrArg (o :: ·) (hall habove), fun hbelow => ?_⟩
      · rw [draw, hfor labels hlength]
        dsimp only
        rw [hdraw labels hlength]
        rfl
      · exact List.forall_mem_cons.2 ⟨hlt hpos, hplaces hpos⟩
      · cases hchoice.symm.trans (hbelow g)

/-- Predictions at places of a list are predictions of labels. -/
theorem map_atPlace (labels : List Text) (picks : List (Nat × Occurrence)) :
    picks.map (.atPlace labels) =
      (picks.map fun pick => (labels.getD pick.1 [], pick.2)).map fun x =>
        TypePrediction.ofOccurrence x.1 x.2 := by
  rw [map_map]
  rfl

/-! ### Predictions -/

/-- The predictions for sources, one after the other, and the baseline after them. -/
def predictEach (parser : SourceParser) :
    List (Text × Option Text) → Baseline → List (Except Halt (List TypePrediction)) × Baseline
  | [], b => ([], b)
  | (source, file) :: rest, b =>
    let reply := b.predict parser source file
    let later := predictEach parser rest reply.approach
    (reply.outcome :: later.1, later.2)

/-- What is predicted for one source, whatever the labels are. -/
theorem predict_picks (parser : SourceParser) (source : Text) (file : Option Text) (b : Baseline)
    (count : Nat) :
    ∃ (picks : List (Nat × Occurrence)) (g : Twister),
      (∀ labels : List Text, labels.length = count →
        (predict parser source file { b with labels := labels }).outcome =
            .ok (picks.map (.atPlace labels)) ∧
          (predict parser source file { b with labels := labels }).approach =
            { b with labels := labels, generator := g }) ∧
      (0 < count → ∀ pick ∈ picks, pick.1 < count) ∧
      ∀ u, parser.parse source = .ok u → picks.map (·.2) <+ u.occurrences := by
  cases hparse : parser.parse source with
  | error failure =>
    refine ⟨[], b.generator, fun labels _ => ?_, fun _ => nofun, nofun⟩
    rw [predict, hparse]
    exact ⟨rfl, rfl⟩
  | ok u =>
    obtain ⟨picks, g, hdraw, hplaces, hsublist, -, -⟩ :=
      exists_picks_draw count b.probability u.trace.found b.generator
    refine ⟨picks, g, fun labels hlength => ?_, hplaces, fun u' h => ?_⟩
    · rw [predict, hparse]
      dsimp only [predictUnit]
      rw [hdraw labels hlength]
      exact ⟨rfl, rfl⟩
    · obtain rfl := Except.ok.inj h
      exact hsublist

/-- **Predictions in step.** Baselines that differ in their labels alone, and have as many of them,
predict for the same occurrences of each source in the same order, with labels from the same places
of their lists, and are left with the same generator. -/
theorem predictEach_picks (parser : SourceParser) (sources : List (Text × Option Text))
    (b : Baseline) (count : Nat) :
    ∃ (picks : List (List (Nat × Occurrence))) (g : Twister),
      (∀ labels : List Text, labels.length = count →
        predictEach parser sources { b with labels := labels } =
          (picks.map fun picked => .ok (picked.map (.atPlace labels)),
            { b with labels := labels, generator := g })) ∧
      (0 < count → ∀ picked ∈ picks, ∀ pick ∈ picked, pick.1 < count) ∧
      Forall₂ (fun source picked =>
        ∀ u, parser.parse source.1 = .ok u → picked.map (·.2) <+ u.occurrences) sources picks := by
  induction sources generalizing b with
  | nil => exact ⟨[], b.generator, fun _ _ => rfl, fun _ => nofun, .nil⟩
  | cons source sources ih =>
    obtain ⟨source, file⟩ := source
    obtain ⟨picked, g, hpredict, hplaces, hsublist⟩ := predict_picks parser source file b count
    -- The later sources are predicted with the one generator that all lists leave.
    obtain ⟨picks, g', hlater, hlaterPlaces, hlaterSublists⟩ := ih { b with generator := g }
    refine ⟨picked :: picks, g', fun labels hlength => ?_, fun hpos => ?_,
      .cons hsublist hlaterSublists⟩
    · obtain ⟨houtcome, happroach⟩ := hpredict labels hlength
      rw [predictEach, houtcome, happroach, hlater labels hlength]
      rfl
    · exact List.forall_mem_cons.2 ⟨hplaces hpos, hlaterPlaces hpos⟩

/-- A baseline that always predicts. Its generator draws the second label of two at first, and the
first label after that. -/
def wavering : Baseline :=
  { eager with generator := ⟨(Vector.replicate 624 0).set 2 0x40000000, 0⟩ }

/-- The labels that are predicted for sources; there are none of a failure. -/
def labelsEach (outcomes : List (Except Halt (List TypePrediction))) : List (List Text) :=
  outcomes.map fun outcome => (outcome.toOption.getD []).map (·.label)

/-- Of two labels the second is predicted first, and the first one after that, through two sources
and with either list. -/
theorem predictEach_picks_wavering :
    (∃ (picks : List (List (Nat × Occurrence))) (g : Twister),
      (∀ labels : List Text, labels = ["string", "number"] ∨ labels = ["null", "object"] →
        predictEach lostParser.mended [([], none), ([], none)] { wavering with labels := labels } =
          (picks.map fun picked => .ok (picked.map (.atPlace labels)),
            { wavering with labels := labels, generator := g })) ∧
      ∀ picked ∈ picks, ∀ pick ∈ picked, pick.1 < 2) ∧
    labelsEach (predictEach lostParser.mended [([], none), ([], none)]
        { wavering with labels := ["string", "number"] }).1 =
      ([["number", "string"], ["string", "string"]] : List (List Text)) ∧
    labelsEach (predictEach lostParser.mended [([], none), ([], none)]
        { wavering with labels := ["null", "object"] }).1 =
      ([["object", "null"], ["null", "null"]] : List (List Text)) := by
  refine ⟨?_, by decide +kernel, by decide +kernel⟩
  obtain ⟨picks, g, hpicks, hplaces, -⟩ :=
    predictEach_picks lostParser.mended [([], none), ([], none)] wavering 2
  refine ⟨picks, g, fun labels hlabels => hpicks labels ?_, hplaces Nat.zero_lt_two⟩
  rcases hlabels with rfl | rfl <;> rfl

end Baseline

end TypeBench
