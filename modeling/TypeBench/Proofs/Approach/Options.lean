import TypeBench.Approach.Baseline

/-!
# Options of the baseline

The baseline looks at its options in a fixed order, and each of them is either refused for its value
alone or overwrites one setting. So what comes of options does not depend on the baseline. If a
value is no value of its setting, the first such one is named in the error, and only the settings
before it are overwritten; the seed and the generators are not, since the seed is looked at last.
Otherwise all that is given is overwritten, and one event tells of the settings.

## Main definitions

* `Baseline.Setting`: the settings that options give, and when a value is none of a setting.
* `Baseline.Override`: the settings that options overwrite.
* `Baseline.given`: what options overwrite if none of them is refused.
* `Baseline.IsRefused`, `Baseline.IsAccepted`: the two ways in which a baseline answers options.

## Main results

* `Baseline.take_cases`: taking over one setting.
* `Baseline.takeAll_cases`: taking over several settings, up to the first that is refused.
* `Baseline.exists_taken`: what options do to any baseline.
* `Baseline.configure_settles`: which options a baseline refuses, and what comes of them.
-/

namespace TypeBench

/-! ### Kinds of values -/

namespace Value

/-- Whether a value is a text. -/
def isText : Value → Bool
  | text _ => true
  | _ => false

/-- The number of items of a sequence. A text is a sequence as well. -/
def size? : Value → Option Nat
  | text t => some t.length
  | bytes b => some b.length
  | list items | tuple items => some items.length
  | _ => none

/-- Whether a value is a boolean. -/
def isBool : Value → Bool
  | bool _ => true
  | _ => false

/-- Whether a value is an integer. A boolean is an integer as well. -/
def isInteger : Value → Bool
  | bool _ | int _ => true
  | _ => false

/-- Whether a value is an integer or a floating point number. -/
def isNumber : Value → Bool
  | bool _ | int _ | float _ => true
  | _ => false

/-- Whether a value is not a number in the sense of floating point. -/
def isNan : Value → Bool
  | float x => x == .nan
  | _ => false

/-- Whether a value is a number below zero or above one. -/
def isOutside : Value → Bool
  | int i => decide (i < 0 ∨ 1 < i)
  | float x => x.lt 0 || Binary64.lt 1 x
  | _ => false

end Value

namespace Baseline

/-! ### Settings -/

/-- The settings of the baseline that options may give. -/
inductive Setting where
  | labels
  | probability
  | seed
  deriving DecidableEq

namespace Setting

/-- All settings, in the order in which they are taken over. -/
def all : List Setting := [labels, probability, seed]

/-- The option that gives a setting. -/
def option : Setting → Text
  | labels => labelsOption
  | probability => probabilityOption
  | seed => ApproachConfig.seedOption

/-- Taking a setting over from options. -/
def take (options : Options) : Setting → Baseline → Except OptionFault Baseline
  | labels => takeLabels options
  | probability => takeProbability options
  | seed => takeSeed options

/-- A value is no value of a setting. -/
def IsFaulty : Setting → Value → Prop
  | labels, value => value.isText ∨ value.size? = none ∨ value.size? = some 0
  | probability, value => value.isBool ∨ ¬value.isNumber ∨ value.isNan ∨ value.isOutside
  | seed, value => value.isBool ∨ ¬value.isInteger

instance : (s : Setting) → (value : Value) → Decidable (s.IsFaulty value)
  | labels, value => inferInstanceAs (Decidable (value.isText ∨ _ ∨ _))
  | probability, value => inferInstanceAs (Decidable (value.isBool ∨ _ ∨ _ ∨ _))
  | seed, value => inferInstanceAs (Decidable (value.isBool ∨ _))

/-- What is wrong with a value that is no value of a setting. -/
def fault : Setting → Value → OptionFault
  | labels, value => if value.isText ∨ value.size? = none then .notLabels else .noLabels
  | probability, value => if value.isBool ∨ ¬value.isNumber then .notNumber else .notShare value
  | seed, _ => .notSeed

end Setting

/-- The labels that a sequence gives. -/
def labelsOf (value : Value) : List Text := ((items? value).getD []).map Value.shown

/-- The probability that a number gives. -/
def probabilityOf : Value → Binary64
  | .int i => .ofInt i
  | .float x => x
  | _ => 0

/-- The seed that an integer gives, and none of a null. -/
def seedOf : Value → Option Int
  | .int i => some i
  | _ => none

/-! ### Reading values -/

theorem readLabels_eq (value : Value) :
    readLabels value =
      if Setting.labels.IsFaulty value then .error (Setting.labels.fault value)
      else .ok (labelsOf value) := by
  cases value with
  | bytes items | list items | tuple items =>
    cases items <;>
      simp [readLabels, items?, labelsOf, Setting.IsFaulty, Setting.fault, Value.isText,
        Value.size?]
  | _ => rfl

/-- A number lies outside of two others, or is `nan`, unless it lies between them. -/
theorem outside_iff {low high : Binary64} (hlow : low ≠ .nan) (hhigh : high ≠ .nan)
    (x : Binary64) :
    (x = .nan ∨ (x.lt low || high.lt x) = true) ↔ ¬(low.le x && x.le high) = true := by
  by_cases hx : x = .nan
  · subst hx
    exact iff_of_true (.inl rfl) (by simp [Binary64.le])
  · rw [Binary64.le_eq_not_lt hlow hx, Binary64.le_eq_not_lt hx hhigh, ← Bool.not_or,
      or_iff_right hx, Bool.not_eq_true', Bool.not_eq_false]

theorem readProbability_eq (value : Value) :
    readProbability value =
      if Setting.probability.IsFaulty value then .error (Setting.probability.fault value)
      else .ok (probabilityOf value) := by
  cases value with
  | int i =>
    have hfaulty : Setting.probability.IsFaulty (.int i) ↔ ¬(0 ≤ i ∧ i ≤ 1) := by
      simp only [Setting.IsFaulty, Value.isBool, Value.isNumber, Value.isNan, Value.isOutside,
        decide_eq_true_eq]
      grind
    simp only [hfaulty, ite_not]
    rfl
  | float x =>
    have hzero : (0 : Binary64) ≠ .nan := by decide +kernel
    have hone : (1 : Binary64) ≠ .nan := by decide +kernel
    have hfaulty : Setting.probability.IsFaulty (.float x) ↔
        ¬(Binary64.le 0 x && x.le 1) = true := by
      rw [← outside_iff hzero hone]
      simp [Setting.IsFaulty, Value.isBool, Value.isNumber, Value.isNan, Value.isOutside]
    simp only [hfaulty, ite_not]
    rfl
  | _ => rfl

theorem readSeed_eq {value : Value} (h : value.isNull = false) :
    readSeed value =
      if Setting.seed.IsFaulty value then .error (Setting.seed.fault value)
      else .ok (seedOf value) := by
  cases value with
  | null => cases h
  | _ => rfl

/-- A seed that is not refused is an integer. -/
theorem exists_int_of_not_isFaulty {value : Value} (h : ¬Setting.seed.IsFaulty value) :
    ∃ i, value = .int i := by
  cases value with
  | int i => exact ⟨i, rfl⟩
  | bool b => exact absurd (.inl rfl) h
  | _ => exact absurd (.inr Bool.false_ne_true) h

/-! ### Overriding settings -/

/-- The settings that options overwrite. -/
structure Override where
  labels : Option (List Text) := none
  probability : Option Binary64 := none
  seed : Option (Option Int) := none

/-- A baseline with settings overwritten. -/
def Override.apply (v : Override) (b : Baseline) : Baseline :=
  { b with
    labels := v.labels.getD b.labels
    probability := v.probability.getD b.probability
    seed := v.seed.getD b.seed }

/-- Two overrides as one: the later one comes first. -/
def Override.before (v later : Override) : Override where
  labels := later.labels <|> v.labels
  probability := later.probability <|> v.probability
  seed := later.seed <|> v.seed

theorem Override.apply_apply (v later : Override) (b : Baseline) :
    later.apply (v.apply b) = (v.before later).apply b := by
  obtain ⟨labels, probability, seed⟩ := later
  cases labels <;> cases probability <;> cases seed <;> rfl

theorem Override.before_self (v : Override) : v.before v = v := by
  obtain ⟨labels, probability, seed⟩ := v
  cases labels <;> cases probability <;> cases seed <;> rfl

/-- An override of some settings alone. -/
def Override.only (settings : List Setting) (v : Override) : Override where
  labels := if .labels ∈ settings then v.labels else none
  probability := if .probability ∈ settings then v.probability else none
  seed := if .seed ∈ settings then v.seed else none

theorem Override.only_all (v : Override) : v.only Setting.all = v := rfl

theorem Override.only_cons (s : Setting) (settings : List Setting) (v : Override) :
    (v.only [s]).before (v.only settings) = v.only (s :: settings) := by
  obtain ⟨labels, probability, seed⟩ := v
  cases s <;> simp [only, before] <;> grind

/-- What options overwrite: all that they give. -/
def given (options : Options) : Override where
  labels := (given? options labelsOption).map labelsOf
  probability := (given? options probabilityOption).map probabilityOf
  seed := (Value.get? ApproachConfig.seedOption options).map seedOf

/-! ### Taking options over -/

/-- What options give for a setting is no value of it. -/
def Offends (options : Options) (s : Setting) : Prop :=
  ∃ value ∈ given? options s.option, s.IsFaulty value

theorem get?_of_given? {options : Options} {name : Text} {value : Value}
    (h : given? options name = some value) :
    Value.get? name options = some value ∧ value.isNull = false := by
  obtain ⟨found, hfound, hgiven⟩ := Option.bind_eq_some_iff.1 h
  cases hnull : found.isNull with
  | true => simp [hnull] at hgiven
  | false =>
    obtain rfl : found = value := by simpa [hnull] using hgiven
    exact ⟨hfound, hnull⟩

/-- A setting for which nothing is given is left as it is; a null takes the seed away. -/
theorem take_of_not_given {options : Options} {s : Setting} (h : given? options s.option = none)
    (b : Baseline) : s.take options b = .ok (((given options).only [s]).apply b) := by
  cases s with
  | labels =>
    change given? options labelsOption = none at h
    simp only [Setting.take, takeLabels, given, h]
    rfl
  | probability =>
    change given? options probabilityOption = none at h
    simp only [Setting.take, takeProbability, given, h]
    rfl
  | seed =>
    cases hvalue : Value.get? ApproachConfig.seedOption options with
    | none =>
      simp only [Setting.take, takeSeed, given, hvalue]
      rfl
    | some value =>
      have hnull : value.isNull = true := by
        have h' := h
        simp only [Setting.option, given?, hvalue] at h'
        simpa using h'
      cases value with
      | null =>
        simp only [Setting.take, takeSeed, given, hvalue]
        rfl
      | _ => cases hnull

/-- A value that is read for a setting is refused, or the setting is changed to what it gives. -/
theorem map_read_eq {α : Type} {s : Setting} {value : Value} {read : Except OptionFault α}
    {found : α} (hread : read = if s.IsFaulty value then .error (s.fault value) else .ok found)
    (change : α → Baseline) :
    read.map change =
      if s.IsFaulty value then .error (s.fault value) else .ok (change found) := by
  rw [hread]
  split <;> rfl

/-- A value that is given for a setting is refused, or overwrites the setting. -/
theorem take_of_given {options : Options} {s : Setting} {value : Value}
    (h : given? options s.option = some value) (b : Baseline) :
    s.take options b =
      if s.IsFaulty value then .error (s.fault value)
      else .ok (((given options).only [s]).apply b) := by
  cases s with
  | labels =>
    change given? options labelsOption = some value at h
    simp only [Setting.take, takeLabels, given, h]
    exact map_read_eq (readLabels_eq value) _
  | probability =>
    change given? options probabilityOption = some value at h
    simp only [Setting.take, takeProbability, given, h]
    exact map_read_eq (readProbability_eq value) _
  | seed =>
    obtain ⟨hvalue, hnull⟩ := get?_of_given? h
    change Value.get? ApproachConfig.seedOption options = some value at hvalue
    simp only [Setting.take, takeSeed, given, hvalue]
    exact map_read_eq (readSeed_eq hnull) _

/-- **Taking one setting over.** It is refused for the value that is given, or overwritten. -/
theorem take_cases (options : Options) (s : Setting) :
    (¬Offends options s ∧ ∀ b, s.take options b = .ok (((given options).only [s]).apply b)) ∨
      ∃ value ∈ given? options s.option, s.IsFaulty value ∧
        ∀ b, s.take options b = .error (s.fault value) := by
  cases hgiven : given? options s.option with
  | none =>
    refine .inl ⟨fun ⟨value, hvalue, _⟩ => ?_, take_of_not_given hgiven⟩
    rw [hgiven] at hvalue
    cases hvalue
  | some value =>
    have htake := take_of_given hgiven
    by_cases hfaulty : s.IsFaulty value
    · simp only [if_pos hfaulty] at htake
      exact .inr ⟨value, rfl, hfaulty, htake⟩
    · simp only [if_neg hfaulty] at htake
      refine .inl ⟨fun ⟨other, hother, h⟩ => hfaulty ?_, htake⟩
      obtain rfl := Option.some.inj (hgiven.symm.trans hother)
      exact h

/-- The steps in which settings are taken over. -/
def stepsOf (options : Options) (settings : List Setting) :
    List (Text × (Baseline → Except OptionFault Baseline)) :=
  settings.map fun s => (s.option, s.take options)

theorem takeAll_stepsOf_cons {options : Options} {s : Setting} {b b' : Baseline}
    (h : s.take options b = .ok b') (settings : List Setting) :
    takeAll b (stepsOf options (s :: settings)) = takeAll b' (stepsOf options settings) := by
  rw [stepsOf, List.map_cons, takeAll, h]
  rfl

/-- **Taking several settings over.** All of them are overwritten if none is refused. Otherwise
those before the first one that is refused are, and it is named with its fault. -/
theorem takeAll_cases (options : Options) (settings : List Setting) :
    ((∀ s ∈ settings, ¬Offends options s) ∧
        ∀ b, takeAll b (stepsOf options settings) =
          (((given options).only settings).apply b, none)) ∨
      ∃ before s after, settings = before ++ s :: after ∧ (∀ s' ∈ before, ¬Offends options s') ∧
        ∃ value ∈ given? options s.option, s.IsFaulty value ∧
          ∀ b, takeAll b (stepsOf options settings) =
            (((given options).only before).apply b, some (s.option, s.fault value)) := by
  induction settings with
  | nil => exact .inl ⟨nofun, fun _ => rfl⟩
  | cons s settings ih =>
    rcases take_cases options s with ⟨hkeeps, htake⟩ | ⟨value, hvalue, hfaulty, htake⟩
    · rcases ih with
        ⟨hall, hrest⟩ | ⟨before, s', after, rfl, hbefore, value, hvalue, hfaulty, hrest⟩
      · refine .inl ⟨List.forall_mem_cons.2 ⟨hkeeps, hall⟩, fun b => ?_⟩
        rw [takeAll_stepsOf_cons (htake b), hrest, Override.apply_apply, Override.only_cons]
      · refine .inr ⟨s :: before, s', after, rfl, List.forall_mem_cons.2 ⟨hkeeps, hbefore⟩, value,
          hvalue, hfaulty, fun b => ?_⟩
        rw [takeAll_stepsOf_cons (htake b), hrest, Override.apply_apply, Override.only_cons]
    · refine .inr ⟨[], s, settings, rfl, nofun, value, hvalue, hfaulty, fun b => ?_⟩
      rw [stepsOf, List.map_cons, takeAll, htake]
      rfl

/-! ### Setting up -/

/-- The settings that are taken over before a setting. -/
def Setting.earlier (s : Setting) : List Setting := all.takeWhile (· != s)

theorem Setting.earlier_eq {before after : List Setting} {s : Setting}
    (h : all = before ++ s :: after) : s.earlier = before := by
  have hnodup : all.Nodup := by decide
  rw [h, List.nodup_append] at hnodup
  have hbefore : ∀ s' ∈ before, (s' != s) = true := fun s' hs' =>
    bne_iff_ne.2 (hnodup.2.2 s' hs' s List.mem_cons_self)
  rw [earlier, h, List.takeWhile_append_of_pos hbefore, List.takeWhile_cons_of_neg (by simp),
    List.append_nil]

/-- What comes of options that are refused for a setting, the first one for which they give no value
of it: the option is named, what is given before it is overwritten and nothing else, nothing is told
and the parser is not asked. -/
structure IsRefused (options : Options) (b : Baseline) (s : Setting) (r : Response Unit) :
    Prop where
  offends : Offends options s
  first : ∀ s' ∈ s.earlier, ¬Offends options s'
  outcome : ∃ value ∈ given? options s.option, r.outcome =
    .error (.failed (.bench (.invalidOption b.name s.option (s.fault value).reason)))
  approach : r.approach = ((given options).only s.earlier).apply b
  seed : r.approach.seed = b.seed
  generator : r.approach.generator = b.generator
  entropy : r.approach.entropy = b.entropy
  events : r.events = []
  calls : r.calls = []

/-- What comes of options that are accepted: all that is given is overwritten, the generator is made
anew, and one event tells of the labels, the probability and the seed, each under its option. -/
structure IsAccepted (options : Options) (b : Baseline) (r : Response Unit) : Prop where
  outcome : r.outcome = .ok ()
  approach : r.approach = ((given options).apply b).reseeded
  events : r.events = [.configured b.name (.map
    [(.text "availableTypes", .list (r.approach.labels.map .text)),
      (.text "randomTypeProbability", .float r.approach.probability),
      (.text "seed", (r.approach.seed.map .int).getD .null)])]
  calls : r.calls = [.ready]

/-- A baseline that is reseeded has other generators at most. -/
theorem exists_reseeded_eq (b : Baseline) :
    ∃ generator entropy, b.reseeded = { b with generator := generator, entropy := entropy } := by
  rw [reseeded]
  split
  · exact ⟨_, b.entropy, rfl⟩
  · exact ⟨_, _, rfl⟩

theorem steps_eq (options : Options) : steps options = stepsOf options Setting.all := rfl

/-- What options do to any baseline: settings that do not offend are overwritten, and a fault is
that of a value for a setting. -/
theorem exists_taken (options : Options) :
    ∃ (settings : List Setting) (fault? : Option (Text × OptionFault)),
      (∀ s ∈ settings, ¬Offends options s) ∧
      (∀ option fault, fault? = some (option, fault) →
        ∃ s value, option = Setting.option s ∧ fault = s.fault value) ∧
      ∀ b, takeAll b (steps options) = (((given options).only settings).apply b, fault?) := by
  rcases takeAll_cases options Setting.all with
    ⟨hall, htake⟩ | ⟨before, s, after, -, hbefore, value, -, -, htake⟩
  · exact ⟨_, none, hall, nofun, htake⟩
  · refine ⟨before, _, hbefore, fun option fault h => ?_, htake⟩
    obtain ⟨rfl, rfl⟩ := Prod.mk.inj (Option.some.inj h)
    exact ⟨s, value, rfl, rfl⟩

/-- Labels that are overwritten are read of what is given. -/
theorem exists_readLabels {options : Options} {settings : List Setting}
    (hkept : ∀ s ∈ settings, ¬Offends options s) {labels : List Text}
    (h : ((given options).only settings).labels = some labels) :
    ∃ value, given? options labelsOption = some value ∧ readLabels value = .ok labels := by
  simp only [Override.only, given] at h
  split at h
  · next hmem =>
    obtain ⟨value, hvalue, rfl⟩ := Option.map_eq_some_iff.1 h
    have hfaulty : ¬Setting.labels.IsFaulty value := fun hfaulty =>
      hkept .labels hmem ⟨value, hvalue, hfaulty⟩
    exact ⟨value, hvalue, by rw [readLabels_eq, if_neg hfaulty]⟩
  · cases h

/-- A probability that is overwritten is read of what is given. -/
theorem exists_readProbability {options : Options} {settings : List Setting}
    (hkept : ∀ s ∈ settings, ¬Offends options s) {p : Binary64}
    (h : ((given options).only settings).probability = some p) :
    ∃ value, given? options probabilityOption = some value ∧ readProbability value = .ok p := by
  simp only [Override.only, given] at h
  split at h
  · next hmem =>
    obtain ⟨value, hvalue, rfl⟩ := Option.map_eq_some_iff.1 h
    have hfaulty : ¬Setting.probability.IsFaulty value := fun hfaulty =>
      hkept .probability hmem ⟨value, hvalue, hfaulty⟩
    exact ⟨value, hvalue, by rw [readProbability_eq, if_neg hfaulty]⟩
  · cases h

variable {parser : SourceParser} {options : Options} {b b' : Baseline}

theorem configure_of_fault {option : Text} {fault : OptionFault}
    (h : takeAll b (steps options) = (b', some (option, fault))) :
    b.configure parser options =
      { outcome := .error (.failed (.bench (.invalidOption b'.name option fault.reason)))
        approach := b'
        events := []
        calls := [] } := by
  rw [configure, h]

theorem configure_of_ready (hready : parser.ready = .ok ())
    (h : takeAll b (steps options) = (b', none)) :
    b.configure parser options =
      { outcome := .ok ()
        approach := b'.reseeded
        events := [.configured b'.reseeded.name b'.reseeded.settings]
        calls := [.ready] } := by
  rw [configure, h]
  dsimp only
  rw [hready]

theorem configure_of_unready {failure : Failure} (hready : parser.ready = .error failure)
    (h : takeAll b (steps options) = (b', none)) :
    b.configure parser options =
      { outcome := .error (.failed failure)
        approach := b'.reseeded
        events := []
        calls := [.ready] } := by
  rw [configure, h]
  dsimp only
  rw [hready]

/-- Options are refused for the first setting for which they give no value of it, or are accepted if
there is none. -/
theorem configure_cases (hready : parser.ready = .ok ()) (options : Options) (b : Baseline) :
    (∃ s, IsRefused options b s (b.configure parser options)) ∨
      (∀ s, ¬Offends options s) ∧ IsAccepted options b (b.configure parser options) := by
  rcases takeAll_cases options Setting.all with
    ⟨hall, htake⟩ | ⟨before, s, after, hsplit, hbefore, value, hvalue, hfaulty, htake⟩
  · rw [Override.only_all, ← steps_eq] at htake
    have hname : ((given options).apply b).reseeded.name = b.name := by
      obtain ⟨generator, entropy, hreseeded⟩ := exists_reseeded_eq ((given options).apply b)
      rw [hreseeded]
      rfl
    rw [configure_of_ready hready (htake b), hname]
    exact .inr ⟨fun s => hall s (by cases s <;> decide), rfl, rfl, rfl, rfl⟩
  · obtain rfl := Setting.earlier_eq hsplit
    rw [← steps_eq] at htake
    -- The seed is taken over last, so it is not among the settings before the faulty one.
    have hseed : (((given options).only s.earlier).apply b).seed = b.seed := by
      cases s <;> rfl
    rw [configure_of_fault (htake b)]
    exact .inl ⟨s, ⟨value, hvalue, hfaulty⟩, hbefore, ⟨value, hvalue, rfl⟩, rfl, hseed, rfl, rfl,
      rfl, rfl⟩

/-- **Options of the baseline.** A baseline whose parser is ready fails to be set up just when the
options give for one of the settings what is no value of it, and then they are refused for the first
such setting. Otherwise they are accepted. -/
theorem configure_settles (hready : parser.ready = .ok ()) (options : Options) (b : Baseline) :
    ((∃ approach option reason, (b.configure parser options).outcome =
        .error (.failed (.bench (.invalidOption approach option reason)))) ↔
      ∃ s, Offends options s) ∧
    (∀ halt, (b.configure parser options).outcome = .error halt →
      ∃ s, IsRefused options b s (b.configure parser options)) ∧
    ((b.configure parser options).outcome = .ok () →
      IsAccepted options b (b.configure parser options)) := by
  rcases configure_cases hready options b with ⟨s, hrefused⟩ | ⟨hnone, haccepted⟩
  · obtain ⟨value, hvalue, houtcome⟩ := hrefused.outcome
    refine ⟨iff_of_true ⟨_, _, _, houtcome⟩ ⟨s, hrefused.offends⟩, fun _ _ => ⟨s, hrefused⟩, ?_⟩
    intro hok
    cases houtcome.symm.trans hok
  · have hok := haccepted.outcome
    refine ⟨iff_of_false ?_ (not_exists.2 hnone), ?_, fun _ => haccepted⟩
    · rintro ⟨approach, option, reason, herror⟩
      cases hok.symm.trans herror
    · intro halt herror
      cases hok.symm.trans herror

/-- A parser that is ready and can parse nothing. -/
def idleParser : SourceParser := ⟨.ok (), fun _ => .error (.raised [])⟩

/-- A baseline before it is set up. -/
def fresh : Baseline := start defaultName ⟨.replicate 624 0, 0⟩

/-- Options with labels, with a probability that is no number and with a seed that is no integer. -/
def offendingOptions : Options :=
  [(labelsOption, .tuple [.text "number"]), (probabilityOption, .float .nan),
    (ApproachConfig.seedOption, .bool true)]

/-- Options with no labels, the lowest probability and a seed. -/
def plainOptions : Options :=
  [(labelsOption, .null), (probabilityOption, .int 0), (ApproachConfig.seedOption, .int 7)]

/-- The probability is refused after the labels are taken over; the other options are accepted. -/
theorem configure_settles_fresh :
    ((fresh.configure idleParser offendingOptions).outcome =
        .error (.failed (.bench (.invalidOption defaultName probabilityOption
          "must be between 0 and 1, got nan"))) ∧
      (fresh.configure idleParser offendingOptions).approach.labels = [Text.ofString "number"] ∧
      (fresh.configure idleParser offendingOptions).approach.generator = fresh.generator ∧
      (fresh.configure idleParser offendingOptions).events = []) ∧
    (fresh.configure idleParser plainOptions).outcome = .ok () ∧
    (fresh.configure idleParser plainOptions).events = [.configured defaultName (.map
      [(.text "availableTypes", .list (defaultLabels.map .text)),
        (.text "randomTypeProbability", .float 0), (.text "seed", .int 7)])] := by
  have hready : idleParser.ready = .ok () := rfl
  constructor
  · obtain ⟨hiff, hrefused, -⟩ := configure_settles hready offendingOptions fresh
    have hprobability : Offends offendingOptions .probability :=
      ⟨.float .nan, rfl, .inr (.inr (.inl rfl))⟩
    have hlabels : ¬Offends offendingOptions .labels := by
      rintro ⟨value, hvalue, hfaulty⟩
      obtain rfl := Option.some.inj hvalue
      revert hfaulty
      decide
    obtain ⟨_, _, _, herror⟩ := hiff.2 ⟨_, hprobability⟩
    obtain ⟨s, h⟩ := hrefused _ herror
    cases s with
    | labels => exact absurd h.offends hlabels
    | seed => exact absurd hprobability (h.first .probability (by decide))
    | probability =>
      obtain ⟨value, hvalue, houtcome⟩ := h.outcome
      obtain rfl := Option.some.inj hvalue
      refine ⟨houtcome, ?_, h.generator, h.events⟩
      rw [h.approach]
      rfl
  · obtain ⟨-, hrefused, haccepted⟩ := configure_settles hready plainOptions fresh
    have hnone (s : Setting) : ¬Offends plainOptions s := by
      rintro ⟨value, hvalue, hfaulty⟩
      cases s with
      | labels => cases hvalue
      | probability | seed =>
        obtain rfl := Option.some.inj hvalue
        revert hfaulty
        decide
    cases houtcome : (fresh.configure idleParser plainOptions).outcome with
    | error halt =>
      obtain ⟨s, h⟩ := hrefused halt houtcome
      exact absurd h.offends (hnone s)
    | ok _ =>
      have h := haccepted houtcome
      have hlabels : ((given plainOptions).apply fresh).reseeded.labels = defaultLabels := rfl
      have hprobability : ((given plainOptions).apply fresh).reseeded.probability = 0 := by
        decide +kernel
      have hseed : ((given plainOptions).apply fresh).reseeded.seed = some 7 := rfl
      have hevents := h.events
      rw [h.approach, hlabels, hprobability, hseed] at hevents
      exact ⟨rfl, hevents⟩

end Baseline

end TypeBench
