import TypeBench.Proofs.Approach.Options
import TypeBench.Proofs.Evaluation.Lockstep
import TypeBench.Proofs.Evaluation.Use

/-!
# Seeded baselines

Options overwrite settings of the baseline, always the same ones with the same values, and so it
makes no difference to take them over twice, or what was drawn in between. With a seed among them
the baseline draws the same labels whatever its generators were. Two such baselines cannot be told
apart, nor can one be told from what it was before it was used.

## Main definitions

* `Baseline.setup`, `Baseline.takenSetup`: the settings of a baseline, and those with options taken
  over.
* `Baseline.IsSeeded`: options that give a seed.
* `ParsingBaseline.Ready`, `ParsingBaseline.Running`: baselines that cannot be told apart, before
  and after they are set up with such options.

## Main results

* `Baseline.exists_override`: what options overwrite does not depend on the baseline.
* `ParsingBaseline.reproduces`: seeded baselines answer alike.
* `ParsingBaseline.ready_of_used`: a baseline that was used answers like itself before.
-/

namespace TypeBench

namespace Baseline

/-! ### Settings -/

/-- What options overwrite, and their fault, does not depend on the baseline. -/
theorem exists_override (options : Options) :
    ∃ (v : Override) (fault? : Option (Text × OptionFault)),
      ∀ b, takeAll b (steps options) = (v.apply b, fault?) := by
  obtain ⟨settings, fault?, -, -, htake⟩ := exists_taken options
  exact ⟨_, fault?, htake⟩

/-- The settings of a baseline, apart from its generators. -/
structure Setup where
  name : Text
  labels : List Text
  probability : Binary64
  seed : Option Int

/-- The settings of a baseline. -/
def setup (b : Baseline) : Setup := ⟨b.name, b.labels, b.probability, b.seed⟩

/-- The settings with options taken over, and the fault of the options. -/
def takenSetup (options : Options) (b : Baseline) : Setup × Option (Text × OptionFault) :=
  ((takeAll b (steps options)).1.setup, (takeAll b (steps options)).2)

theorem setup_apply_congr (v : Override) {b b' : Baseline} (h : b.setup = b'.setup) :
    (v.apply b).setup = (v.apply b').setup := by
  obtain ⟨hname, hlabels, hprobability, hseed⟩ := Setup.mk.inj h
  simp only [setup, Override.apply, hname, hlabels, hprobability, hseed]

theorem takenSetup_congr (options : Options) {b b' : Baseline} (h : b.setup = b'.setup) :
    b.takenSetup options = b'.takenSetup options := by
  obtain ⟨v, fault?, htake⟩ := exists_override options
  rw [takenSetup, takenSetup, htake, htake, setup_apply_congr v h]

/-- Taking options over twice is taking them over once. -/
theorem takenSetup_takeAll (options : Options) (b : Baseline) :
    (takeAll b (steps options)).1.takenSetup options = b.takenSetup options := by
  obtain ⟨v, fault?, htake⟩ := exists_override options
  rw [takenSetup, takenSetup, htake, htake, Override.apply_apply, Override.before_self]

@[simp] theorem setup_reseeded (b : Baseline) : b.reseeded.setup = b.setup := by
  obtain ⟨generator, entropy, hreseeded⟩ := exists_reseeded_eq b
  rw [hreseeded]
  rfl

/-- Setting a baseline up takes the options over, and settles none of its settings otherwise. -/
theorem setup_configure (parser : SourceParser) (options : Options) (b : Baseline) :
    (b.configure parser options).approach.setup = (takeAll b (steps options)).1.setup := by
  rw [configure]
  rcases takeAll b (steps options) with ⟨b', _ | ⟨option, fault⟩⟩
  · dsimp only
    cases parser.ready <;> exact setup_reseeded b'
  · rfl

@[simp] theorem takenSetup_configure (parser : SourceParser) (options : Options) (b : Baseline) :
    (b.configure parser options).approach.takenSetup options = b.takenSetup options := by
  rw [← takenSetup_takeAll options b]
  exact takenSetup_congr options (setup_configure parser options b)

@[simp] theorem setup_predict (parser : SourceParser) (source : Text) (file : Option Text)
    (b : Baseline) : (b.predict parser source file).approach.setup = b.setup := by
  rw [predict]
  cases parser.parse source <;> rfl

/-- Baselines with the same settings and generator predict alike, and stay so. -/
theorem predict_congr (parser : SourceParser) (source : Text) (file : Option Text)
    {b b' : Baseline} (hsetup : b.setup = b'.setup) (hgenerator : b.generator = b'.generator) :
    (b.predict parser source file).outcome = (b'.predict parser source file).outcome ∧
      (b.predict parser source file).approach.setup =
        (b'.predict parser source file).approach.setup ∧
      (b.predict parser source file).approach.generator =
        (b'.predict parser source file).approach.generator := by
  obtain ⟨name, labels, probability, seed, generator, entropy⟩ := b
  obtain ⟨name', labels', probability', seed', generator', entropy'⟩ := b'
  obtain ⟨hname, hlabels, hprobability, hseed⟩ := Setup.mk.inj hsetup
  dsimp only at hgenerator hname hlabels hprobability hseed
  subst hgenerator hname hlabels hprobability hseed
  rw [predict, predict]
  cases parser.parse source with
  | ok u => exact ⟨rfl, rfl, rfl⟩
  | error failure => exact ⟨rfl, rfl, rfl⟩

/-! ### Seeds -/

/-- Options give a seed: there is a value for it that is not null. -/
def IsSeeded (options : Options) : Prop :=
  ∃ value, Value.get? ApproachConfig.seedOption options = some value ∧ value.isNull = false

/-- A baseline that accepts options with a seed has a seed. -/
theorem seed_of_isSeeded {options : Options} (h : IsSeeded options) {b b' : Baseline}
    (htake : takeAll b (steps options) = (b', none)) : ∃ i, b'.seed = some i := by
  obtain ⟨value, hvalue, hnull⟩ := h
  rcases takeAll_cases options Setting.all with
    ⟨hall, hsteps⟩ | ⟨before, s, after, -, -, _, -, -, hsteps⟩
  · have hgiven : given? options Setting.seed.option = some value := by
      simp [given?, Setting.option, hvalue, hnull]
    obtain ⟨i, rfl⟩ := exists_int_of_not_isFaulty fun hfaulty =>
      hall .seed (by decide) ⟨value, hgiven, hfaulty⟩
    obtain ⟨rfl, -⟩ := Prod.mk.inj (htake.symm.trans (hsteps b))
    refine ⟨i, ?_⟩
    rw [Override.only_all]
    simp only [Override.apply, given, hvalue]
    rfl
  · cases htake.symm.trans (hsteps b)

/-- The generator of a baseline that has a seed is that of the seed. -/
theorem generator_reseeded {b : Baseline} {i : Int} (h : b.seed = some i) :
    b.reseeded.generator = Twister.ofSeed i := by
  rw [reseeded, h]

/-! ### Setting up -/

variable {parser : SourceParser} {options : Options} {b b' : Baseline}

/-- Whether a baseline is set up depends on the settings that the options give it. -/
theorem outcome_configure_congr (h : b.takenSetup options = b'.takenSetup options) :
    (b.configure parser options).outcome = (b'.configure parser options).outcome := by
  rw [takenSetup, takenSetup] at h
  rw [configure, configure]
  rcases htake : takeAll b (steps options) with ⟨c, fault?⟩
  rcases htake' : takeAll b' (steps options) with ⟨c', fault?'⟩
  rw [htake, htake'] at h
  obtain ⟨hsetup, rfl⟩ : c.setup = c'.setup ∧ fault? = fault?' := Prod.mk.inj h
  obtain ⟨hname, -, -, -⟩ := Setup.mk.inj hsetup
  rcases fault? with _ | ⟨option, fault⟩
  · dsimp only
    cases parser.ready <;> rfl
  · dsimp only
    rw [hname]

/-- A baseline that is set up has a parser that is ready, takes the options over and is reseeded. -/
theorem approach_of_configure_ok (h : (b.configure parser options).outcome = .ok ()) :
    parser.ready = .ok () ∧ ∃ c, takeAll b (steps options) = (c, none) ∧
      (b.configure parser options).approach = c.reseeded := by
  rcases htake : takeAll b (steps options) with ⟨c, _ | ⟨option, fault⟩⟩
  · cases hready : parser.ready with
    | ok _ =>
      rw [configure_of_ready hready htake]
      exact ⟨rfl, c, rfl, rfl⟩
    | error failure =>
      rw [configure_of_unready hready htake] at h
      cases h
  · rw [configure_of_fault htake] at h
    cases h

/-- No interrupt arrives when a baseline is set up. -/
theorem outcome_configure_ne_interrupted (parser : SourceParser) (options : Options)
    (b : Baseline) : (b.configure parser options).outcome ≠ .error .interrupted := by
  intro h
  rcases htake : takeAll b (steps options) with ⟨c, _ | ⟨option, fault⟩⟩
  · cases hready : parser.ready with
    | ok _ =>
      rw [configure_of_ready hready htake] at h
      cases h
    | error failure =>
      rw [configure_of_unready hready htake] at h
      cases h
  · rw [configure_of_fault htake] at h
    cases h

/-- Predictions never fail. -/
theorem exists_outcome_predict (parser : SourceParser) (source : Text) (file : Option Text)
    (b : Baseline) :
    ∃ predictions, (b.predict parser source file).outcome = .ok predictions := by
  rw [predict]
  cases parser.parse source with
  | ok u => exact ⟨_, rfl⟩
  | error failure => exact ⟨[], rfl⟩

end Baseline

/-! ### Baselines that cannot be told apart -/

namespace ParsingBaseline

/-- Baselines with one parser, to which options with a seed give the same settings. -/
structure Ready (options : Options) (a a' : ParsingBaseline) : Prop where
  seeded : Baseline.IsSeeded options
  parser : a.parser = a'.parser
  takenSetup : a.baseline.takenSetup options = a'.baseline.takenSetup options

/-- Baselines with one parser, the same settings and the same generator. -/
structure Running (options : Options) (a a' : ParsingBaseline) : Prop where
  seeded : Baseline.IsSeeded options
  parser : a.parser = a'.parser
  setup : a.baseline.setup = a'.baseline.setup
  generator : a.baseline.generator = a'.baseline.generator

variable {options : Options} {a a' : ParsingBaseline}

theorem ready_of_setup_eq (hseeded : Baseline.IsSeeded options) (hparser : a.parser = a'.parser)
    (hsetup : a.baseline.setup = a'.baseline.setup) : Ready options a a' :=
  ⟨hseeded, hparser, Baseline.takenSetup_congr options hsetup⟩

theorem Running.ready (h : Running options a a') : Ready options a a' :=
  ready_of_setup_eq h.seeded h.parser h.setup

/-- Baselines to which options with a seed give the same settings are set up alike, each with the
generator of the seed. -/
theorem Ready.configure (h : Ready options a a') :
    (Approach.configure options a).outcome = (Approach.configure options a').outcome ∧
      Ready options (Approach.configure options a).approach
        (Approach.configure options a').approach ∧
      ((Approach.configure options a).outcome = .ok () →
        Running options (Approach.configure options a).approach
          (Approach.configure options a').approach) := by
  obtain ⟨b, parser⟩ := a
  obtain ⟨b', parser'⟩ := a'
  obtain ⟨hseeded, hparser, htaken⟩ := h
  obtain rfl : parser = parser' := hparser
  dsimp only at htaken
  have houtcome : (b.configure parser options).outcome = (b'.configure parser options).outcome :=
    Baseline.outcome_configure_congr htaken
  refine ⟨houtcome, ⟨hseeded, rfl, ?_⟩, fun hok => ?_⟩
  · change (b.configure parser options).approach.takenSetup options =
      (b'.configure parser options).approach.takenSetup options
    rw [Baseline.takenSetup_configure, Baseline.takenSetup_configure, htaken]
  · obtain ⟨-, c, htake, hc⟩ := Baseline.approach_of_configure_ok hok
    obtain ⟨-, c', htake', hc'⟩ := Baseline.approach_of_configure_ok (houtcome.symm.trans hok)
    have hsetup : c.setup = c'.setup := by
      rw [Baseline.takenSetup, Baseline.takenSetup, htake, htake'] at htaken
      exact congrArg Prod.fst htaken
    obtain ⟨i, hi⟩ := Baseline.seed_of_isSeeded hseeded htake
    have hi' : c'.seed = some i := by
      obtain ⟨-, -, -, hseed⟩ := Baseline.Setup.mk.inj hsetup
      rw [← hseed, hi]
    refine ⟨hseeded, rfl, ?_, ?_⟩
    · change (b.configure parser options).approach.setup =
        (b'.configure parser options).approach.setup
      rw [hc, hc', Baseline.setup_reseeded, Baseline.setup_reseeded, hsetup]
    · change (b.configure parser options).approach.generator =
        (b'.configure parser options).approach.generator
      rw [hc, hc', Baseline.generator_reseeded hi, Baseline.generator_reseeded hi']

/-- Baselines with the same settings and generator predict alike, and stay so. -/
theorem Running.predict (h : Running options a a') (source file : Text) :
    (Approach.predict source file a).outcome = (Approach.predict source file a').outcome ∧
      Running options (Approach.predict source file a).approach
        (Approach.predict source file a').approach := by
  obtain ⟨b, parser⟩ := a
  obtain ⟨b', parser'⟩ := a'
  obtain ⟨hseeded, hparser, hsetup, hgenerator⟩ := h
  obtain rfl : parser = parser' := hparser
  obtain ⟨houtcome, hsetup', hgenerator'⟩ :=
    Baseline.predict_congr parser source (some file) hsetup hgenerator
  exact ⟨houtcome, hseeded, rfl, hsetup', hgenerator'⟩

/-- **Seeded baselines.** Baselines to which options with a seed give the same settings answer
alike, whatever their generators were. -/
theorem reproduces (options : Options) :
    Approach.Reproduces options (Ready options) (Running options) where
  configure h := h.configure
  predict h := h.predict
  dispose h := ⟨rfl, h.seeded, h.parser, h.takenSetup⟩
  ready h := h.ready

/-- A baseline that was used is given the same settings by its options as before. -/
theorem ready_of_used (hseeded : Baseline.IsSeeded options) (h : Approach.Used options a a') :
    Ready options a a' := by
  induction h with
  | refl => exact ⟨hseeded, rfl, rfl⟩
  | @configure b _ ih =>
    refine ⟨hseeded, ih.parser, ih.takenSetup.trans ?_⟩
    exact (Baseline.takenSetup_configure b.parser options b.baseline).symm
  | @predict b _ source file ih =>
    refine ⟨hseeded, ih.parser, ih.takenSetup.trans (Baseline.takenSetup_congr options ?_)⟩
    exact (Baseline.setup_predict b.parser source (some file) b.baseline).symm
  | dispose _ ih => exact ⟨hseeded, ih.parser, ih.takenSetup⟩

/-- No interrupt arrives at a call of a baseline. -/
theorem neverInterrupts (a : ParsingBaseline) : Approach.NeverInterrupts a := by
  have hcall (b : ParsingBaseline) (c : Call) : ¬Approach.IsInterrupted b c := by
    cases c with
    | configure options => exact b.baseline.outcome_configure_ne_interrupted b.parser options
    | predict source file =>
      obtain ⟨predictions, hok⟩ := b.baseline.exists_outcome_predict b.parser source (some file)
      intro h
      cases hok.symm.trans h
    | dispose => exact nofun
  exact fun earlier c => hcall _ c

end ParsingBaseline

end TypeBench
