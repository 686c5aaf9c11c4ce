import TypeBench.Proofs.Approach.Reachable
import TypeBench.Proofs.Evaluation.Batch
import TypeBench.Proofs.Matching.Account
import TypeBench.Proofs.Report.Lines
import TypeBench.Proofs.Score.LabelMaps
import TypeBench.Proofs.TestCase.Loaded

/-!
# Labels without lone surrogates

A baseline predicts labels that it has from the start or takes over from options. If neither these
nor those of the test cases have lone surrogates, every result of the baseline can be printed, and
what is said about options that are refused can be logged.

## Main definitions

* `Baseline.GivesPlainLabels`: options whose labels have no lone surrogates.
* `ParsingBaseline.IsPlain`: a baseline of a name and a parser whose labels have none.

## Main results

* `ParsingBaseline.IsPlain.used`: a baseline keeps such labels when it is used.
* `ParsingBaseline.IsPlain.configure_failure`: why setting such a baseline up fails.
* `Bench.ComesTo.isPrintable`: what such a baseline comes to can be printed.
-/

namespace TypeBench

namespace Baseline

/-! ### Options -/

/-- The labels that options give, if they give any, have no lone surrogates. Nothing else that they
hold is ever shown as it is. -/
def GivesPlainLabels (options : Options) : Prop :=
  ∀ value labels, given? options labelsOption = some value → readLabels value = .ok labels →
    ∀ label ∈ labels, label.hasSurrogate = false

/-- The labels of a baseline have no lone surrogates. -/
def HasPlainLabels (b : Baseline) : Prop := ∀ label ∈ b.labels, label.hasSurrogate = false

theorem hasPlainLabels_start (name : Text) (entropy : Twister) :
    (start name entropy).HasPlainLabels := by
  change ∀ label ∈ defaultLabels, label.hasSurrogate = false
  decide

variable {options : Options} {b b' : Baseline}

theorem HasPlainLabels.takeAll (h : b.HasPlainLabels) (hoptions : GivesPlainLabels options) :
    (takeAll b (steps options)).1.HasPlainLabels := by
  obtain ⟨settings, fault?, hkept, -, htake⟩ := exists_taken options
  rw [htake, HasPlainLabels, Override.apply]
  cases hgiven : ((given options).only settings).labels with
  | none => exact h
  | some labels =>
    obtain ⟨value, hvalue, hread⟩ := exists_readLabels hkept hgiven
    exact hoptions value labels hvalue hread

/-- What is said about a value has no lone surrogates: it is shown only if it is a number. -/
theorem hasSurrogate_reason_fault (s : Setting) (value : Value) :
    (s.fault value).reason.hasSurrogate = false := by
  cases s with
  | labels =>
    rw [Setting.fault]
    split <;> exact Text.hasSurrogate_ofString _
  | probability =>
    rw [Setting.fault]
    split
    · exact Text.hasSurrogate_ofString _
    · next h =>
      cases value with
      | int | float => simp [OptionFault.reason, Value.shown, Value.written]
      | _ => simp [Value.isBool, Value.isNumber] at h
  | seed => exact Text.hasSurrogate_ofString _

/-- What is said about options that are refused has no lone surrogates. -/
theorem hasSurrogate_of_takeAll {option : Text} {fault : OptionFault}
    (h : takeAll b (steps options) = (b', some (option, fault))) :
    option.hasSurrogate = false ∧ fault.reason.hasSurrogate = false := by
  obtain ⟨settings, fault?, -, hfault, htake⟩ := exists_taken options
  rw [htake] at h
  obtain ⟨s, value, rfl, rfl⟩ := hfault option fault (Prod.mk.inj h).2
  exact ⟨by cases s <;> exact Text.hasSurrogate_ofString _, hasSurrogate_reason_fault s value⟩

end Baseline

/-! ### Baselines with a parser -/

namespace ParsingBaseline

open Baseline

/-- A baseline of a name and a parser whose labels have no lone surrogates. -/
structure IsPlain (parser : SourceParser) (name : Text) (a : ParsingBaseline) : Prop where
  name_eq : a.baseline.name = name
  parser_eq : a.parser = parser
  sound : a.baseline.IsSound
  labels : a.baseline.HasPlainLabels

variable {parser : SourceParser} {name : Text} {options : Options} {a a' : ParsingBaseline}

theorem isPlain_start (parser : SourceParser) (name : Text) (entropy : Twister) :
    IsPlain parser name ⟨start name entropy, parser⟩ :=
  ⟨rfl, rfl, isSound_start name entropy, hasPlainLabels_start name entropy⟩

theorem IsPlain.of_setup_eq (h : IsPlain parser name a)
    (hsetup : a'.baseline.setup = a.baseline.setup) (hparser : a'.parser = a.parser) :
    IsPlain parser name a' := by
  obtain ⟨hname, hlabels, -, -⟩ := Setup.mk.inj hsetup
  exact ⟨hname.trans h.name_eq, hparser.trans h.parser_eq, h.sound.congr hsetup,
    fun label hlabel => h.labels label (hlabels ▸ hlabel)⟩

theorem IsPlain.takeAll (h : IsPlain parser name a) (hoptions : GivesPlainLabels options) :
    IsPlain parser name ⟨(Baseline.takeAll a.baseline (steps options)).1, parser⟩ where
  name_eq := by
    obtain ⟨v, fault?, htake⟩ := exists_override options
    rw [htake]
    exact h.name_eq
  parser_eq := rfl
  sound := h.sound.takeAll options
  labels := h.labels.takeAll hoptions

/-- A baseline keeps such labels when it is set up, also where an option or the parser refuses. -/
theorem IsPlain.configure (h : IsPlain parser name a) (hoptions : GivesPlainLabels options) :
    IsPlain parser name (Approach.configure options a).approach :=
  (h.takeAll hoptions).of_setup_eq (setup_configure a.parser options a.baseline) h.parser_eq

/-- A baseline keeps such labels when it is used. -/
theorem IsPlain.used (h : IsPlain parser name a) (hoptions : GivesPlainLabels options)
    (hused : Approach.Used options a a') : IsPlain parser name a' := by
  induction hused with
  | refl => exact h
  | configure _ ih => exact ih.configure hoptions
  | predict _ source file ih =>
    exact ih.of_setup_eq (setup_predict _ source (some file) _) rfl
  | dispose _ ih => exact ih.of_setup_eq rfl rfl

/-- Setting a baseline up fails with the failure of its parser, or is refused in words without lone
surrogates. -/
theorem IsPlain.configure_failure (h : IsPlain parser name a) (hname : name.hasSurrogate = false)
    {halt : Halt} (hhalt : (Approach.configure options a).outcome = .error halt) :
    ∃ failure, halt = .failed failure ∧
      (parser.ready = .error failure ∨ failure.message.hasSurrogate = false) := by
  change (a.baseline.configure a.parser options).outcome = .error halt at hhalt
  rw [Baseline.configure, h.parser_eq] at hhalt
  rcases htake : Baseline.takeAll a.baseline (steps options) with ⟨c, _ | ⟨option, fault⟩⟩
  · rw [htake] at hhalt
    dsimp only at hhalt
    cases hready : parser.ready with
    | error failure =>
      rw [hready] at hhalt
      exact ⟨failure, (Except.error.inj hhalt).symm, .inl rfl⟩
    | ok _ =>
      rw [hready] at hhalt
      cases hhalt
  · rw [htake] at hhalt
    obtain ⟨hoption, hreason⟩ := hasSurrogate_of_takeAll htake
    have hkept : c.name = name := by
      obtain ⟨v, fault?, hoverride⟩ := exists_override options
      rw [hoverride] at htake
      exact (Prod.mk.inj htake).1 ▸ h.name_eq
    refine ⟨_, (Except.error.inj hhalt).symm, .inr ?_⟩
    simp [Failure.message, BenchError.message, hkept, hname, hoption, hreason]

/-- The labels of predictions are labels of the baseline. -/
theorem IsPlain.predictions (h : IsPlain parser name a) {source file : Text}
    {predictions : List TypePrediction}
    (hpredict : (Approach.predict source file a).outcome = .ok predictions) :
    ∀ p ∈ predictions, p.label.hasSurrogate = false := by
  change (a.baseline.predict a.parser source (some file)).outcome = .ok predictions at hpredict
  cases hparse : a.parser.parse source with
  | error failure =>
    rw [Baseline.predict, hparse] at hpredict
    obtain rfl := Except.ok.inj hpredict
    exact List.forall_mem_nil _
  | ok u =>
    rw [outcome_predict_of_ok _ _ hparse] at hpredict
    obtain ⟨labelled, hdraw, -, hmem, -⟩ := exists_labelled h.sound.labels
      a.baseline.probability u.visited a.baseline.generator
    obtain rfl := hdraw.symm.trans (Except.ok.inj hpredict)
    intro p hp
    obtain ⟨x, hx, rfl⟩ := List.mem_map.1 hp
    exact h.labels x.1 (hmem x hx)

end ParsingBaseline

/-! ### Results -/

open ParsingBaseline

/-- All labels that are predicted for test cases are labels of the baseline. -/
theorem CasesRun.hasSurrogate_labels {R : Type} [Quantity R] {parser : SourceParser} {name : Text}
    {a a' : ParsingBaseline} {clock clock' : Clock R} {cases : List TestCase}
    {done : List (CompletedCase R)} {last? : Option BrokenCase}
    (h : CasesRun a clock cases done last? a' clock') (ha : IsPlain parser name a) :
    ∀ p ∈ done.flatMap (·.predictions), p.label.hasSurrogate = false := by
  induction h with
  | nil => exact nofun
  | broken => exact nofun
  | @completed a _ _ _ _ _ _ _ _ _ hfirst _ ih =>
    cases hfirst with
    | @intro case _ _ _ _ _ _ _ hpredict _ _ =>
      have hlater : IsPlain parser name (Approach.predict case.source case.id a).approach :=
        ha.of_setup_eq (Baseline.setup_predict a.parser case.source (some case.id) a.baseline) rfl
      exact List.forall_mem_append.2 ⟨ha.predictions hpredict, ih hlater⟩

/-- A predicted label that counts is one of a match or of a prediction without one. -/
theorem MatchSet.exists_of_mem_scoredLabels {m : MatchSet} {policy : ScoringPolicy} {label : Text}
    (h : label ∈ m.scoredLabels policy) :
    ∃ p ∈ m.found.map (·.prediction) ++ m.unmatchedPredictions, p.label = label := by
  rw [scoredLabels.eq_def] at h
  rcases List.mem_append.1 h with hfound | hunmatched
  · obtain ⟨x, hx, rfl⟩ := List.mem_map.1 hfound
    exact ⟨x.prediction, List.mem_append_left _ (List.mem_map_of_mem hx), rfl⟩
  · cases policy with
    | lenient => cases hunmatched
    | strict =>
      obtain ⟨p, hp, rfl⟩ := List.mem_map.1 hunmatched
      exact ⟨p, List.mem_append_right _ hp, rfl⟩

/-- Scores of labels without lone surrogates can be printed. -/
theorem CaseTally.isPrintable_scores {done : List (CompletedCase Binary64)} {name : Text}
    (hname : name.hasSurrogate = false)
    (hpredicted : ∀ p ∈ done.flatMap (·.predictions), p.label.hasSurrogate = false)
    (hverified : ∀ truth ∈ done.flatMap (·.case.truths), truth.label.hasSurrogate = false)
    (policy : ScoringPolicy) : ((CaseTally.empty.addAll done).scores policy name).IsPrintable where
  approach := hname
  labels := by
    have haccounts := CaseTally.accounts_addAll done
    have hscored (label : Text)
        (hlabel : label ∈ (CaseTally.empty.addAll done).matching.scoredLabels policy) :
        label.hasSurrogate = false := by
      obtain ⟨p, hp, rfl⟩ := MatchSet.exists_of_mem_scoredLabels hlabel
      exact hpredicted p (haccounts.predictions_perm.subset hp)
    rw [Named.names, List.map_append]
    refine List.forall_mem_append.2 ⟨fun label hlabel => ?_, fun label hlabel => ?_⟩
    · exact hscored label (LabelMap.mem_names_shares.1 hlabel)
    · have hmem := LabelMap.mem_names_shares.1 hlabel
      rw [CaseTally.truths_addAll] at hmem
      obtain ⟨truth, htruth, rfl⟩ := List.mem_map.1 hmem
      exact hverified truth htruth
  additional := by
    intro key hkey
    have hnames : key ∈ [Text.ofString "unmatched_predictions",
        Text.ofString "unmatched_ground_truth", Text.ofString "coverage"] := hkey
    simp only [List.mem_cons, List.not_mem_nil, or_false] at hnames
    rcases hnames with rfl | rfl | rfl <;> exact Text.hasSurrogate_ofString _

/-- What a baseline without lone surrogates in its labels comes to can be printed. -/
theorem Bench.ComesTo.isPrintable {parser : SourceParser} {optionsOf : Text → Options}
    {policy : ScoringPolicy} {cases : List TestCase} {entry : Text × EvaluationResult Binary64}
    (h : ComesTo (IsPlain parser) optionsOf policy cases entry)
    (hname : entry.1.hasSurrogate = false)
    (hoptions : Baseline.GivesPlainLabels (optionsOf entry.1))
    (hcases : ∀ case ∈ cases, case.IsPlain) :
    entry.2.approach = entry.1 ∧ entry.2.IsPrintable := by
  obtain ⟨a, a', clock, clock', done, ha, hrun⟩ := h
  obtain ⟨hdone, hscore⟩ := hrun.score_of_ok
  rw [CaseTally.scores_of_score hscore]
  refine ⟨rfl, CaseTally.isPrintable_scores hname ?_ ?_ policy⟩
  · exact hrun.run_of_ok.1.hasSurrogate_labels (ha.configure hoptions)
  · intro truth htruth
    obtain ⟨c, hc, htruth⟩ := List.mem_flatMap.1 htruth
    exact (hcases c.case (hdone ▸ List.mem_map_of_mem hc)).labels truth htruth

end TypeBench
