import TypeBench.Proofs.Approach.Indices
import TypeBench.Proofs.Approach.Seeding

/-!
# Setting a baseline up twice

Options overwrite settings, and what is predicted in between leaves the settings as they are. So to
set a baseline up with some options and later with others is to set it up once with both merged,
where the later ones win. Later labels or a later probability that are null give nothing and leave
the earlier value; a later seed that is null is a value and wins. The generator is made anew each
time, so with a seed nothing is left of earlier draws.

## Main definitions

* `Baseline.Merges`: options that are two others, with the later ones winning.
* `Baseline.Drawn`: a baseline after predictions and disposals.
* `Baseline.SetUpAlike`: calls that set a baseline up to the same effect.

## Main results

* `Baseline.Merges.given_eq`: merged options overwrite what both overwrite.
* `Baseline.predictEach_congr`: baselines with the same settings and generator predict alike.
* `Baseline.configure_merged`: setting up twice is setting up once with merged options.
-/

namespace TypeBench

namespace Baseline

/-! ### Merged options -/

/-- Options that are two others merged. The later labels and probability win if they are present and
not null, and the later seed if it is present. -/
structure Merges (first second merged : Options) : Prop where
  labels : Value.get? labelsOption merged =
    (given? second labelsOption).or (Value.get? labelsOption first)
  probability : Value.get? probabilityOption merged =
    (given? second probabilityOption).or (Value.get? probabilityOption first)
  seed : Value.get? ApproachConfig.seedOption merged =
    (Value.get? ApproachConfig.seedOption second).or (Value.get? ApproachConfig.seedOption first)

/-- The entry for an option, if there is a value for it. -/
def entryOf (name : Text) (value : Option Value) : Options :=
  value.toList.map fun value => (.text name, value)

theorem get?_entryOf_append (name other : Text) (value : Option Value) (rest : Options) :
    Value.get? name (entryOf other value ++ rest) =
      if other = name then value.or (Value.get? name rest) else Value.get? name rest := by
  cases value with
  | none => simp [entryOf]
  | some value => simp [entryOf]

theorem exists_merges (first second : Options) : ∃ merged, Merges first second merged := by
  refine ⟨entryOf labelsOption ((given? second labelsOption).or (Value.get? labelsOption first)) ++
    (entryOf probabilityOption
        ((given? second probabilityOption).or (Value.get? probabilityOption first)) ++
      (entryOf ApproachConfig.seedOption ((Value.get? ApproachConfig.seedOption second).or
        (Value.get? ApproachConfig.seedOption first)) ++ [])), ?_, ?_, ?_⟩
  · rw [get?_entryOf_append, if_pos rfl, get?_entryOf_append, if_neg (by decide),
      get?_entryOf_append, if_neg (by decide), Value.get?_nil, Option.or_none]
  · rw [get?_entryOf_append, if_neg (by decide), get?_entryOf_append, if_pos rfl,
      get?_entryOf_append, if_neg (by decide), Value.get?_nil, Option.or_none]
  · rw [get?_entryOf_append, if_neg (by decide), get?_entryOf_append, if_neg (by decide),
      get?_entryOf_append, if_pos rfl, Value.get?_nil, Option.or_none]

variable {first second merged : Options}

/-- A value that is given later wins. -/
theorem given?_of_or {name : Text}
    (h : Value.get? name merged = (given? second name).or (Value.get? name first)) :
    given? merged name = (given? second name).or (given? first name) := by
  cases hsecond : given? second name with
  | none =>
    rw [hsecond, Option.none_or] at h
    simp only [given?, h, Option.none_or]
  | some value =>
    obtain ⟨-, hnull⟩ := get?_of_given? hsecond
    rw [hsecond, Option.some_or] at h
    simp [given?, h, hnull]

namespace Merges

/-- Merged options overwrite what both overwrite, the later ones last. -/
theorem given_eq (h : Merges first second merged) :
    given merged = (given first).before (given second) := by
  simp only [given, Override.before, given?_of_or h.labels, given?_of_or h.probability, h.seed,
    Option.map_or, Option.orElse_eq_or, Option.orElse_eq_orElse]

/-- Options merged with themselves are the same options. -/
theorem self (options : Options) : Merges options options options := by
  have hor (name : Text) : Value.get? name options =
      (given? options name).or (Value.get? name options) := by
    cases hgiven : given? options name with
    | none => rw [Option.none_or]
    | some value => rw [(get?_of_given? hgiven).1, Option.or_self]
  exact ⟨hor labelsOption, hor probabilityOption, Option.or_self.symm⟩

/-- What is given by merged options is given by one of the two. -/
theorem given?_cases (h : Merges first second merged) {s : Setting} {value : Value}
    (hvalue : given? merged s.option = some value) :
    given? first s.option = some value ∨ given? second s.option = some value := by
  cases s with
  | labels =>
    rw [Setting.option, given?_of_or h.labels, Option.or_eq_some_iff] at hvalue
    exact hvalue.symm.imp_left And.right
  | probability =>
    rw [Setting.option, given?_of_or h.probability, Option.or_eq_some_iff] at hvalue
    exact hvalue.symm.imp_left And.right
  | seed =>
    -- A null that wins is no value that is given.
    rw [Setting.option, given?, h.seed] at hvalue
    cases hsecond : Value.get? ApproachConfig.seedOption second with
    | none =>
      rw [hsecond, Option.none_or] at hvalue
      exact .inl hvalue
    | some later =>
      rw [hsecond, Option.some_or, ← hsecond] at hvalue
      exact .inr hvalue

theorem not_offends (h : Merges first second merged) {s : Setting} (hfirst : ¬Offends first s)
    (hsecond : ¬Offends second s) : ¬Offends merged s := by
  rintro ⟨value, hvalue, hfaulty⟩
  rcases h.given?_cases hvalue with hgiven | hgiven
  · exact hfirst ⟨value, hgiven, hfaulty⟩
  · exact hsecond ⟨value, hgiven, hfaulty⟩

end Merges

/-! ### Draws in between -/

/-- A baseline after predictions and disposals, in any order and with any parsers. -/
inductive Drawn (b : Baseline) : Baseline → Prop
  | refl : Drawn b b
  | predict {c : Baseline} (h : Drawn b c) (parser : SourceParser) (source : Text)
      (file : Option Text) : Drawn b (c.predict parser source file).approach
  | dispose {c : Baseline} (h : Drawn b c) : Drawn b c.dispose.approach

theorem Drawn.setup_eq {b c : Baseline} (h : Drawn b c) : c.setup = b.setup := by
  induction h with
  | refl => rfl
  | predict _ parser source file ih => exact (setup_predict parser source file _).trans ih
  | dispose _ ih => exact ih

/-- Baselines with the same settings and generator predict alike for any sources. -/
theorem predictEach_congr (parser : SourceParser) (sources : List (Text × Option Text))
    {b b' : Baseline} (hsetup : b.setup = b'.setup) (hgenerator : b.generator = b'.generator) :
    (predictEach parser sources b).1 = (predictEach parser sources b').1 := by
  induction sources generalizing b b' with
  | nil => rfl
  | cons source sources ih =>
    obtain ⟨source, file⟩ := source
    obtain ⟨houtcome, hsetup', hgenerator'⟩ :=
      predict_congr parser source file hsetup hgenerator
    rw [predictEach, predictEach, houtcome, ih hsetup' hgenerator']

/-! ### Setting up twice -/

/-- Two calls that set a baseline up to the same effect: they are accepted, give it the same
settings and tell of them. If there is a seed, they give it the same generator too, and what it then
predicts for any sources is the same. -/
structure SetUpAlike (r r' : Response Unit) : Prop where
  accepted : r.outcome = .ok () ∧ r'.outcome = .ok ()
  labels : r.approach.labels = r'.approach.labels
  probability : r.approach.probability = r'.approach.probability
  seed : r.approach.seed = r'.approach.seed
  events : ∃ name, r.events = [.configured name r.approach.settings] ∧
    r'.events = [.configured name r.approach.settings]
  generator : ∀ i, r.approach.seed = some i → r.approach.generator = r'.approach.generator
  predictions : ∀ i, r.approach.seed = some i → ∀ parser sources,
    (predictEach parser sources r.approach).1 = (predictEach parser sources r'.approach).1

theorem settings_congr {b b' : Baseline} (h : b.setup = b'.setup) : b.settings = b'.settings := by
  obtain ⟨-, hlabels, hprobability, hseed⟩ := Setup.mk.inj h
  rw [settings, settings, hlabels, hprobability, hseed]

theorem IsAccepted.generator {options : Options} {b : Baseline} {r : Response Unit}
    (h : IsAccepted options b r) {i : Int} (hi : r.approach.seed = some i) :
    r.approach.generator = Twister.ofSeed i := by
  rw [h.approach] at hi ⊢
  obtain ⟨-, -, -, hseed⟩ := Setup.mk.inj (setup_reseeded ((given options).apply b))
  exact generator_reseeded (hseed.symm.trans hi)

/-- The settings after a call that is accepted. -/
theorem IsAccepted.setup_eq {options : Options} {b : Baseline} {r : Response Unit}
    (h : IsAccepted options b r) : r.approach.setup = ((given options).apply b).setup := by
  rw [h.approach, setup_reseeded]

variable {parser : SourceParser} {options options' : Options} {b b' : Baseline}

/-- Options that one baseline accepts do not offend. -/
theorem not_offends_of_configure_ok (h : (b.configure parser options).outcome = .ok ())
    (s : Setting) : ¬Offends options s := by
  obtain ⟨hready, -⟩ := approach_of_configure_ok h
  rcases configure_cases hready options b with ⟨s', hrefused⟩ | ⟨hnone, -⟩
  · obtain ⟨value, -, herror⟩ := hrefused.outcome
    cases herror.symm.trans h
  · exact hnone s

/-- Options that do not offend are accepted by all baselines. -/
theorem isAccepted_configure (hready : parser.ready = .ok ()) (hnone : ∀ s, ¬Offends options s)
    (b : Baseline) : IsAccepted options b (b.configure parser options) := by
  rcases configure_cases hready options b with ⟨s, hrefused⟩ | ⟨-, haccepted⟩
  · exact absurd hrefused.offends (hnone s)
  · exact haccepted

/-- Calls come to the same if what they give leaves the same settings. -/
theorem setUpAlike_of_setup_eq (hready : parser.ready = .ok ()) (h : ∀ s, ¬Offends options s)
    (h' : ∀ s, ¬Offends options' s)
    (heq : ((given options).apply b).setup = ((given options').apply b').setup) :
    SetUpAlike (b.configure parser options) (b'.configure parser options') := by
  have haccepted := isAccepted_configure hready h b
  have haccepted' := isAccepted_configure hready h' b'
  have hsetup : (b.configure parser options).approach.setup =
      (b'.configure parser options').approach.setup := by
    rw [haccepted.setup_eq, haccepted'.setup_eq, heq]
  obtain ⟨-, hlabels, hprobability, hseed⟩ := Setup.mk.inj hsetup
  have hname : b.name = b'.name := congrArg Setup.name heq
  have hgenerator (i : Int) (hi : (b.configure parser options).approach.seed = some i) :
      (b.configure parser options).approach.generator =
        (b'.configure parser options').approach.generator := by
    rw [haccepted.generator hi, haccepted'.generator (hseed.symm.trans hi)]
  refine ⟨⟨haccepted.outcome, haccepted'.outcome⟩, hlabels, hprobability, hseed,
    ⟨b.name, haccepted.events, ?_⟩, hgenerator,
    fun i hi parser sources => predictEach_congr parser sources hsetup (hgenerator i hi)⟩
  rw [hname, settings_congr hsetup]
  exact haccepted'.events

/-- Setting up once more comes to the same as setting up once with merged options. -/
theorem setUpAlike_of_merges (hready : parser.ready = .ok ()) (hfirst : ∀ s, ¬Offends first s)
    (hsecond : ∀ s, ¬Offends second s) (hmerges : Merges first second merged)
    (hdrawn : Drawn (b.configure parser first).approach b') :
    SetUpAlike (b'.configure parser second) (b.configure parser merged) := by
  have hbetween : b'.setup = ((given first).apply b).setup :=
    hdrawn.setup_eq.trans (isAccepted_configure hready hfirst b).setup_eq
  have hmerged (s : Setting) : ¬Offends merged s := hmerges.not_offends (hfirst s) (hsecond s)
  refine setUpAlike_of_setup_eq hready hsecond hmerged ?_
  calc ((given second).apply b').setup
      = ((given second).apply ((given first).apply b)).setup := setup_apply_congr _ hbetween
    _ = ((given merged).apply b).setup := by rw [Override.apply_apply, hmerges.given_eq]

/-- **Setting up twice.** If a baseline accepts some options and others, then to set it up with the
first ones, have it predict and dispose of it, and set it up with the second ones comes to the same
as to set it up once with both merged. In particular setting it up again with the same options,
after any draws, comes to the same as setting it up once, and whatever was drawn before it is set up
has no effect. -/
theorem configure_merged (hfirst : (b.configure parser first).outcome = .ok ())
    (hsecond : (b.configure parser second).outcome = .ok ()) :
    (∃ merged, Merges first second merged) ∧
    (∀ merged b', Merges first second merged → Drawn (b.configure parser first).approach b' →
      SetUpAlike (b'.configure parser second) (b.configure parser merged)) ∧
    (∀ b', Drawn (b.configure parser first).approach b' →
      SetUpAlike (b'.configure parser first) (b.configure parser first)) ∧
    ∀ b', Drawn b b' → SetUpAlike (b'.configure parser first) (b.configure parser first) := by
  obtain ⟨hready, -⟩ := approach_of_configure_ok hfirst
  have hnone := not_offends_of_configure_ok hfirst
  have hnone' := not_offends_of_configure_ok hsecond
  refine ⟨exists_merges first second, fun merged b' hmerges hdrawn => ?_, fun b' hdrawn => ?_,
    fun b' hdrawn => ?_⟩
  · exact setUpAlike_of_merges hready hnone hnone' hmerges hdrawn
  · exact setUpAlike_of_merges hready hnone hnone (.self first) hdrawn
  · exact setUpAlike_of_setup_eq hready hnone hnone (setup_apply_congr _ hdrawn.setup_eq)

/-- Options with labels and no probability. -/
def laterOptions : Options :=
  [(labelsOption, .list [.text "number"]), (probabilityOption, .null)]

/-- The labels are those of the later options; the probability and the seed are the earlier ones. -/
theorem configure_merged_fresh :
    (fresh.configure idleParser plainOptions).outcome = .ok () ∧
    (fresh.configure idleParser laterOptions).outcome = .ok () ∧
    ∃ b', Drawn (fresh.configure idleParser plainOptions).approach b' ∧
      SetUpAlike (b'.configure idleParser laterOptions)
        (fresh.configure idleParser
          [(labelsOption, .list [.text "number"]), (probabilityOption, .int 0),
            (ApproachConfig.seedOption, .int 7)]) ∧
      (b'.configure idleParser laterOptions).approach.labels = [Text.ofString "number"] ∧
      (b'.configure idleParser laterOptions).approach.seed = some 7 := by
  have hfirst : (fresh.configure idleParser plainOptions).outcome = .ok () :=
    congrArg (·.outcome) (configure_of_ready rfl rfl)
  have hsecond : (fresh.configure idleParser laterOptions).outcome = .ok () :=
    congrArg (·.outcome) (configure_of_ready rfl rfl)
  have hdrawn := (Drawn.refl.predict (b := (fresh.configure idleParser plainOptions).approach)
    lostParser [] none).dispose
  obtain ⟨-, hmerged, -, -⟩ := configure_merged hfirst hsecond
  have halike := hmerged
    [(labelsOption, .list [.text "number"]), (probabilityOption, .int 0),
      (ApproachConfig.seedOption, .int 7)] _ ⟨rfl, rfl, rfl⟩ hdrawn
  refine ⟨hfirst, hsecond, _, hdrawn, halike, ?_, ?_⟩
  · rw [halike.labels, configure_of_ready rfl rfl]
    rfl
  · rw [halike.seed, configure_of_ready rfl rfl]
    rfl

end Baseline

end TypeBench
