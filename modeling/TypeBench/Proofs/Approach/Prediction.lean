import TypeBench.Approach.Baseline
import TypeBench.Proofs.Occurrence.Unreadable

/-!
# Predictions of the baseline

The baseline always returns predictions. An occurrence either fails before any draw is made for it
or not at all, so what was drawn before a place that cannot be read is drawn in the same way if it
can, and more may follow. The events tell which of the two it was, and count what is returned.

## Main definitions

* `SourceParser.mended`: a parser of the same trees, with all places readable.

## Main results

* `Baseline.draw_append`: occurrences are drawn for one after the other.
* `Baseline.outcome_predictUnit`, `Baseline.events_predictUnit`: the reply about a source unit.
* `Baseline.predict_unreadable`: predictions and events whatever can be parsed and read.
-/

namespace TypeBench

/-- A parser of the same trees, with all places readable. -/
def SourceParser.mended (parser : SourceParser) : SourceParser :=
  { parser with parse := fun source => (parser.parse source).map SourceUnit.mended }

namespace Baseline

/-! ### Draws -/

/-- Occurrences are drawn for one after the other: later draws go on with the generator that earlier
ones leave. -/
theorem draw_append (labels : List Text) (probability : Binary64) (os more : List Occurrence)
    (g : Twister) :
    draw labels probability (os ++ more) g =
      ((draw labels probability os g).1 ++
          (draw labels probability more (draw labels probability os g).2).1,
        (draw labels probability more (draw labels probability os g).2).2) := by
  induction os generalizing g with
  | nil => rw [List.nil_append, draw, List.nil_append]
  | cons o os ih =>
    rw [List.cons_append, draw, draw, ih]
    simp only [List.append_assoc]

theorem draw_prefix {os more : List Occurrence} (h : os <+: more) (labels : List Text)
    (probability : Binary64) (g : Twister) :
    (draw labels probability os g).1 <+: (draw labels probability more g).1 := by
  obtain ⟨rest, rfl⟩ := h
  rw [draw_append]
  exact List.prefix_append _ _

/-! ### Source units -/

variable (parser : SourceParser) (source : Text) (file : Option Text) (b : Baseline)

/-- The predictions for a source unit are drawn for the occurrences that are visited. -/
theorem outcome_predictUnit (file : Text) (u : SourceUnit) :
    (predictUnit file u b).outcome =
      .ok (draw b.labels b.probability u.visited b.generator).1 := by
  simp only [predictUnit, u.found_trace]

/-- The events about a source unit: its faults, if it has any, and the end of the walk. -/
theorem events_predictUnit (file : Text) (u : SourceUnit) :
    (predictUnit file u b).events = syntaxEvents b.name file u.tree ++
      [lastEvent b.name file u.trace
        (draw b.labels b.probability u.visited b.generator).1.length] := by
  simp only [predictUnit, u.found_trace]

/-- The last event tells whether there was a place that could not be read. -/
theorem lastEvent_trace (name file : Text) (u : SourceUnit) (emitted : Nat) :
    ((∃ n ∈ u.reached, u.IsUnreadable n) ∧
        ∃ reason, lastEvent name file u.trace emitted = .traversalFailed name file reason emitted) ∨
      (∀ n ∈ u.reached, ¬u.IsUnreadable n) ∧
        lastEvent name file u.trace emitted =
          .predictionsCompleted name file u.visited.length emitted := by
  rw [lastEvent, u.found_trace]
  cases hfailure : u.trace.failure with
  | none => exact .inr ⟨SourceUnit.failure_trace_eq_none_iff.1 hfailure, rfl⟩
  | some reason =>
    refine .inl ⟨?_, reason, rfl⟩
    by_contra hnone
    have hreadable : ∀ n ∈ u.reached, ¬u.IsUnreadable n := fun n hn h => hnone ⟨n, hn, h⟩
    rw [SourceUnit.failure_trace_eq_none_iff.2 hreadable] at hfailure
    cases hfailure

variable {parser source}

theorem outcome_predict_of_ok {u : SourceUnit} (h : parser.parse source = .ok u) :
    (b.predict parser source file).outcome =
      .ok (draw b.labels b.probability u.visited b.generator).1 := by
  rw [predict, h]
  exact b.outcome_predictUnit (fileName file) u

theorem parse_mended {u : SourceUnit} (h : parser.parse source = .ok u) :
    parser.mended.parse source = .ok u.mended := by
  change (parser.parse source).map SourceUnit.mended = _
  rw [h]
  rfl

/-- What is predicted comes first in what is predicted if all places can be read. -/
theorem predictions_prefix_mended {u : SourceUnit} (h : parser.parse source = .ok u) :
    ∃ whole, (b.predict parser.mended source file).outcome = .ok whole ∧
      (draw b.labels b.probability u.visited b.generator).1 <+: whole :=
  ⟨_, b.outcome_predict_of_ok file (parse_mended h), draw_prefix u.visited_prefix_mended ..⟩

variable (parser source)

/-- **Predictions never fail.** A source that cannot be parsed has no predictions. For any other,
the predictions are drawn for the occurrences before the first identifier whose place cannot be
read, and come first in what is predicted if all places can be read. The faults of the tree are told
of first, if it has any, and then one event tells how the walk ended and how much is returned. -/
theorem predict_unreadable :
    ∃ (predictions : List TypePrediction) (first : List ApproachEvent) (last : ApproachEvent),
      (b.predict parser source file).outcome = .ok predictions ∧
      (b.predict parser source file).events = first ++ [last] ∧
      (∀ failure, parser.parse source = .error failure →
        predictions = [] ∧ first = [] ∧
          last = .traversalFailed b.name (fileName file) failure.message predictions.length) ∧
      ∀ u, parser.parse source = .ok u →
        predictions = (draw b.labels b.probability u.visited b.generator).1 ∧
        (∃ whole, (b.predict parser.mended source file).outcome = .ok whole ∧
          predictions <+: whole) ∧
        first = (if u.tree.errorCount = 0 then []
          else [.syntaxErrors b.name (fileName file) u.tree.errorCount]) ∧
        (((∃ n ∈ u.reached, u.IsUnreadable n) ∧
            ∃ reason,
              last = .traversalFailed b.name (fileName file) reason predictions.length) ∨
          (∀ n ∈ u.reached, ¬u.IsUnreadable n) ∧
            last = .predictionsCompleted b.name (fileName file) u.visited.length
              predictions.length) := by
  cases hparse : parser.parse source with
  | error failure =>
    refine ⟨[], [], .traversalFailed b.name (fileName file) failure.message 0, ?_, ?_, ?_, nofun⟩
    · rw [predict, hparse]
    · rw [predict, hparse]
      rfl
    · intro failure' h
      obtain rfl := Except.error.inj h
      exact ⟨rfl, rfl, rfl⟩
  | ok u =>
    let emitted := (draw b.labels b.probability u.visited b.generator).1.length
    refine ⟨_, syntaxEvents b.name (fileName file) u.tree,
      lastEvent b.name (fileName file) u.trace emitted, b.outcome_predict_of_ok file hparse, ?_,
      nofun, ?_⟩
    · rw [predict, hparse]
      exact b.events_predictUnit (fileName file) u
    · intro u' h
      obtain rfl := Except.ok.inj h
      exact ⟨rfl, b.predictions_prefix_mended file hparse, rfl, lastEvent_trace ..⟩

/-- The source `a;b`, in which the place of the second identifier cannot be read. -/
def lostPlace : SourceUnit where
  bytes := [97, 59, 98]
  tree := .node (SourceUnit.sampleInfo "program" 0 3 none)
    [.node (SourceUnit.sampleInfo "identifier" 0 1 none) [],
      .node { SourceUnit.sampleInfo "identifier" 2 3 none with unreadable := some "lost" } []]

/-- A parser that finds this source everywhere. -/
def lostParser : SourceParser := ⟨.ok (), fun _ => .ok lostPlace⟩

/-- A baseline that always predicts, with a generator whose words are all zero. -/
def eager : Baseline where
  name := defaultName
  labels := defaultLabels
  probability := 1
  seed := none
  generator := ⟨.replicate 624 0, 0⟩
  entropy := ⟨.replicate 624 0, 0⟩

/-- One prediction is made before the place that cannot be read, and a second one if it can. -/
theorem predict_unreadable_lostPlace :
    ∃ predictions whole : List TypePrediction,
      (eager.predict lostParser [] none).outcome = .ok predictions ∧
      predictions.map (·.identifier) = [Text.ofString "a"] ∧
      (eager.predict lostParser.mended [] none).outcome = .ok whole ∧
      predictions <+: whole ∧
      whole.map (·.identifier) = [Text.ofString "a", Text.ofString "b"] ∧
      ∃ reason, (eager.predict lostParser [] none).events =
        [.traversalFailed defaultName unknownFile reason 1] := by
  obtain ⟨predictions, first, last, houtcome, hevents, -, hunit⟩ :=
    predict_unreadable lostParser [] none eager
  obtain ⟨hdrawn, ⟨whole, hwhole, hprefix⟩, hfirst, hlast⟩ := hunit lostPlace rfl
  have hidentifiers : predictions.map (·.identifier) = [Text.ofString "a"] := by
    rw [hdrawn]
    decide +kernel
  have hall : whole.map (·.identifier) = [Text.ofString "a", Text.ofString "b"] := by
    rw [outcome_predict_of_ok (u := lostPlace.mended) none eager rfl] at hwhole
    rw [← Except.ok.inj hwhole]
    decide +kernel
  have hlength : predictions.length = 1 := by
    rw [← List.length_map (·.identifier), hidentifiers]
    rfl
  have hunreadable : ∃ n ∈ lostPlace.reached, lostPlace.IsUnreadable n := by decide
  obtain ⟨reason, hreason⟩ : ∃ reason,
      last = .traversalFailed defaultName unknownFile reason predictions.length := by
    rcases hlast with ⟨-, hfailed⟩ | ⟨hreadable, -⟩
    · exact hfailed
    · obtain ⟨n, hn, h⟩ := hunreadable
      exact absurd h (hreadable n hn)
  refine ⟨predictions, whole, houtcome, hidentifiers, hwhole, hprefix, hall, reason, ?_⟩
  have hnone : first = [] := hfirst.trans (by decide)
  rw [hevents, hnone, hreason, hlength]
  rfl

end Baseline

end TypeBench
