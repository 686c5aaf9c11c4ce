import TypeBench.Proofs.Evaluation.Lockstep

/-!
# Repeated evaluations

Two benches on which approaches of the same names cannot be told apart evaluate them in lockstep: a
failure on one of them is the same failure on the other, and the results differ in their times
alone. An evaluation of all approaches comes to results, unless an interrupt arrives or the observer
fails.

## Main definitions

* `World.Match`, `Bench.Match`, `Turn.Match`: worlds, benches and turns that cannot be told apart
  but by times.
* `Bench.Results.untimed`: results without their times.

## Main results

* `Bench.evaluate_match`, `Bench.evaluateAll_match`: evaluations of one approach and of all keep
  benches and worlds alike, with the same outcomes but for times.
* `Bench.evaluateAll_ok`: an evaluation of all approaches comes to results.
-/

namespace TypeBench

/-- Results without their times. -/
def Bench.Results.untimed (results : Bench.Results Binary64) : Bench.Results Binary64 :=
  results.map fun (name, result) => (name, result.untimed)

theorem Bench.Results.map_untimed_cons (name : Text) (result : EvaluationResult Binary64)
    (outcome : Except Halt (Bench.Results Binary64)) :
    (outcome.map ((name, result) :: ·)).map untimed =
      (outcome.map untimed).map ((name, result.untimed) :: ·) := by
  cases outcome <;> rfl

/-! ### Worlds and benches -/

/-- Worlds with steady clocks, and with observers that answer alike. -/
structure World.Match (w w' : World Binary64) : Prop where
  clock : w.clock.Steady
  clock' : w'.clock.Steady
  observers : Observer.AlikeAfter (LogEntry.told w.log) (LogEntry.told w'.log) w.observer
    w'.observer

section World

variable {A : Type} {related : A → A → Prop} {w w' : World Binary64}

theorem World.Match.session (h : w.Match w') {r r' : Registration A}
    (hr : related r.approach r'.approach) :
    Session.Match related ⟨r, w.clock, w.observer, w.log⟩ ⟨r', w'.clock, w'.observer, w'.log⟩ :=
  ⟨hr, h.clock, h.clock', h.observers⟩

/-- The world that a session leaves. -/
theorem Session.Match.world {s t : Session Binary64 A} (h : Match related s t) :
    World.Match ⟨s.clock, s.observer, s.log⟩ ⟨t.clock, t.observer, t.log⟩ :=
  ⟨h.clock, h.clock', h.observers⟩

theorem World.Match.tell (h : w.Match w') (e : EvaluationEvent Binary64) :
    w.tell e = w'.tell e := h.observers.answer rfl

theorem World.Match.record (h : w.Match w') (e : EvaluationEvent Binary64) :
    (w.record e).Match (w'.record e) :=
  ⟨h.clock, h.clock', h.observers.record rfl⟩

end World

namespace Bench

variable {A : Type}

/-- Benches of one policy, with approaches of the same names that are related by name. -/
structure Match (ready : Text → A → A → Prop) (bench bench' : Bench A) : Prop where
  policy : bench.policy = bench'.policy
  names : bench.names = bench'.names
  find? : ∀ name, Option.Rel (fun r r' => ready name r.approach r'.approach) (bench.find? name)
    (bench'.find? name)

variable {ready running : Text → A → A → Prop} {bench bench' : Bench A}

theorem match_empty (policy : ScoringPolicy) :
    (empty policy : Bench A).Match ready (empty policy) :=
  ⟨rfl, rfl, fun _ => .none⟩

theorem find?_keep (bench : Bench A) (name other : Text) (registration : Registration A) :
    (bench.keep name registration).find? other =
      if other = name then some registration else bench.find? other :=
  Named.lookup_put name other registration bench.registry

theorem names_keep (bench : Bench A) (name : Text) (registration : Registration A) :
    (bench.keep name registration).names =
      if bench.names.contains name then bench.names else bench.names ++ [name] :=
  Named.names_put name registration bench.registry

theorem Match.keep (h : Match ready bench bench') {name : Text} {r r' : Registration A}
    (hr : ready name r.approach r'.approach) :
    Match ready (bench.keep name r) (bench'.keep name r') where
  policy := h.policy
  names := by rw [names_keep, names_keep, h.names]
  find? other := by
    rw [find?_keep, find?_keep]
    by_cases hother : other = name
    · subst hother
      rw [if_pos rfl, if_pos rfl]
      exact .some hr
    · rw [if_neg hother, if_neg hother]
      exact h.find? other

variable [Approach A]

theorem Match.add (h : Match ready bench bench') {a a' : A}
    (hname : Approach.name a = Approach.name a') (ha : ready (Approach.name a) a a') :
    Match ready (bench.add a) (bench'.add a') := by
  have hkeep : Match ready (bench.keep (Approach.name a) ⟨bench.count, a⟩)
      (bench'.keep (Approach.name a) ⟨bench'.count, a'⟩) := h.keep ha
  rw [Bench.add, Bench.add, ← hname]
  exact ⟨hkeep.policy, hkeep.names, hkeep.find?⟩

end Bench

/-! ### Evaluations -/

/-- Turns with the same outcomes but for times, which keep benches and worlds alike. -/
structure Turn.Match {A α β : Type} (ready : Text → A → A → Prop) (erase : α → β)
    (turn turn' : Turn Binary64 A α) : Prop where
  outcome : turn.outcome.map erase = turn'.outcome.map erase
  bench : turn.bench.Match ready turn'.bench
  world : turn.world.Match turn'.world

namespace Bench

variable {A : Type} [Approach A] {optionsOf : Text → Options}
  {ready running : Text → A → A → Prop} {bench bench' : Bench A} {w w' : World Binary64}

/-- Evaluations of approaches that cannot be told apart end in the same way, and leave approaches
that cannot be told apart. -/
theorem evaluate_alike {options : Options} {related later : A → A → Prop}
    (h : Approach.Reproduces options related later) (hpolicy : bench'.policy = bench.policy)
    (hworld : w.Match w') {name : Text} {r r' : Registration A} (hfind : bench.find? name = some r)
    (hfind' : bench'.find? name = some r') (hr : related r.approach r'.approach)
    (cases : List TestCase) :
    (bench.evaluate w name cases options).outcome.map EvaluationResult.untimed =
        (bench'.evaluate w' name cases options).outcome.map EvaluationResult.untimed ∧
      (bench.evaluate w name cases options).world.Match
        (bench'.evaluate w' name cases options).world ∧
      ∃ kept kept' : Registration A, related kept.approach kept'.approach ∧
        (bench.evaluate w name cases options).bench = bench.keep name kept ∧
        (bench'.evaluate w' name cases options).bench = bench'.keep name kept' := by
  rw [evaluate, evaluate, hfind, hfind', hpolicy]
  dsimp only
  rcases Session.evaluate_lockstep h bench.policy name cases _ _ (hworld.session hr) with
    ⟨hs, ht, hresult, hlater⟩ | ⟨hs, ht, hlater⟩
  · rw [hs, ht]
    exact ⟨congrArg Except.ok hresult, hlater.world, _, _, hlater.approaches, rfl, rfl⟩
  · rw [hs, ht]
    exact ⟨rfl, hlater.world, _, _, hlater.approaches, rfl, rfl⟩

/-- Benches on which approaches cannot be told apart stay so by an evaluation. -/
theorem evaluate_match (hbench : bench.Match ready bench') (hworld : w.Match w') {name : Text}
    (h : Approach.Reproduces (optionsOf name) (ready name) (running name))
    (cases : List TestCase) :
    Turn.Match ready EvaluationResult.untimed (bench.evaluate w name cases (optionsOf name))
      (bench'.evaluate w' name cases (optionsOf name)) := by
  have hfound := hbench.find? name
  generalize hfind : bench.find? name = found at hfound
  generalize hfind' : bench'.find? name = found' at hfound
  cases hfound with
  | none =>
    rw [evaluate, evaluate, hfind, hfind']
    exact ⟨rfl, hbench, hworld⟩
  | some hr =>
    obtain ⟨houtcome, hworld', kept, kept', hkept, hleft, hleft'⟩ :=
      evaluate_alike h hbench.policy.symm hworld hfind hfind' hr cases
    refine ⟨houtcome, ?_, hworld'⟩
    rw [hleft, hleft']
    exact hbench.keep hkept

/-- Evaluations of approaches of the same names end in the same way, one after the other. -/
theorem evaluateNames_match
    (h : ∀ name, Approach.Reproduces (optionsOf name) (ready name) (running name))
    (cases : List TestCase) (names : List Text) (hbench : bench.Match ready bench')
    (hworld : w.Match w') :
    Turn.Match ready Results.untimed (evaluateNames cases optionsOf names bench w)
      (evaluateNames cases optionsOf names bench' w') := by
  induction names generalizing bench bench' w w' with
  | nil => exact ⟨rfl, hbench, hworld⟩
  | cons name rest ih =>
    have hturn := evaluate_match hbench hworld (h name) cases
    rw [evaluateNames, evaluateNames]
    generalize bench.evaluate w name cases (optionsOf name) = turn at hturn
    generalize bench'.evaluate w' name cases (optionsOf name) = turn' at hturn
    obtain ⟨outcome, bench₁, w₁⟩ := turn
    obtain ⟨outcome', bench₁', w₁'⟩ := turn'
    obtain ⟨houtcome, hbench₁, hworld₁⟩ := hturn
    dsimp only at houtcome hbench₁ hworld₁
    cases outcome with
    | ok result =>
      cases outcome' with
      | error _ => cases houtcome
      | ok result' =>
        obtain ⟨hrest, hbench₂, hworld₂⟩ := ih hbench₁ hworld₁
        refine ⟨?_, hbench₂, hworld₂⟩
        have hresult : result.untimed = result'.untimed := Except.ok.inj houtcome
        dsimp only
        rw [Results.map_untimed_cons, Results.map_untimed_cons, hrest, hresult]
    | error halt =>
      cases outcome' with
      | ok _ => cases houtcome
      | error halt' =>
        obtain rfl : halt = halt' := Except.error.inj houtcome
        cases halt with
        | interrupted => exact ⟨rfl, hbench₁, hworld₁⟩
        | failed failure =>
          let event : EvaluationEvent Binary64 := .evaluationFailed name failure.message
          have htell : w₁.tell event = w₁'.tell event := hworld₁.tell event
          dsimp only
          rw [htell]
          cases w₁'.tell event with
          | ok _ => exact ih hbench₁ (hworld₁.record event)
          | error second => exact ⟨rfl, hbench₁, hworld₁.record event⟩

/-- **Repeated evaluations of all approaches.** Benches whose approaches cannot be told apart come
to the same results but for times, or end early in the same way. -/
theorem evaluateAll_match
    (h : ∀ name, Approach.Reproduces (optionsOf name) (ready name) (running name))
    (hbench : bench.Match ready bench') (hworld : w.Match w') (cases : List TestCase) :
    Turn.Match ready Results.untimed (bench.evaluateAll w cases optionsOf)
      (bench'.evaluateAll w' cases optionsOf) := by
  rw [evaluateAll, evaluateAll, hbench.names]
  exact evaluateNames_match h cases bench'.names hbench hworld

end Bench

/-! ### Evaluations that come to results -/

/-- A clock that fails at no reading is interrupted at none. -/
theorem Clock.Steady.neverInterrupts {R : Type} [Quantity R] {clock : Clock R} (h : clock.Steady) :
    clock.NeverInterrupts := by
  obtain ⟨readings, last⟩ := clock
  induction readings generalizing last with
  | nil => exact List.not_mem_nil
  | cons reading rest ih =>
    obtain ⟨⟨started, -, hread, -⟩, hlater⟩ := Clock.steady_iff.1 h
    cases reading with
    | time seconds =>
      exact fun hmem => ih seconds hlater ((List.mem_cons.1 hmem).resolve_left nofun)
    | failure message => cases hread
    | interrupt => cases hread

section Undisturbed

variable {R A : Type} [Quantity R] [Approach A] (hA : ∀ a : A, Approach.NeverInterrupts a)
include hA

omit [Quantity R] in
/-- Where no interrupt arrives and the observer never fails, this stays so at every step. -/
theorem Session.caseInvariant_undisturbed :
    CaseInvariant (R := R) (A := A) (fun s => s.clock.NeverInterrupts ∧ s.observer.NeverFails)
      (· ≠ .interrupted) where
  failed _ := nofun
  tell _ := .tell (fun _ => nofun) fun _ hs => hs
  readClock := by
    refine .readClock fun s ⟨hclock, hobserver⟩ => ?_
    obtain ⟨hreading, hlater⟩ := hclock.read (rfl : s.clock.read = (s.clock.read.1, s.clock.read.2))
    exact ⟨⟨hlater, hobserver⟩, fun halt hhalt e => hreading (hhalt.trans (congrArg _ e))⟩
  call source file := by
    refine .call fun s hs => ⟨hs, fun halt hhalt e => ?_⟩
    exact hA _ [] (.predict source file) (hhalt.trans (congrArg _ e))

theorem Session.evaluate_undisturbed (policy : ScoringPolicy) (name : Text)
    (cases : List TestCase) (options : Options) :
    Keeps (R := R) (A := A) (fun s => s.clock.NeverInterrupts ∧ s.observer.NeverFails)
      (· ≠ .interrupted) (evaluate policy name cases options) := by
  refine (caseInvariant_undisturbed hA).evaluate ?_ ?_ policy name cases
  · exact .call fun s hs =>
      ⟨hs, fun halt hhalt e => hA _ [] (.configure options) (hhalt.trans (congrArg _ e))⟩
  · exact .call fun s hs =>
      ⟨hs, fun halt hhalt e => hA _ [] .dispose (hhalt.trans (congrArg _ e))⟩

namespace Bench

variable (optionsOf : Text → Options) (cases : List TestCase)

/-- No interrupt ends an evaluation then, and it leaves the clock and the observer so. -/
theorem evaluate_undisturbed (bench : Bench A) {w : World R} (hclock : w.clock.NeverInterrupts)
    (hobserver : w.observer.NeverFails) (name : Text) (options : Options) :
    (bench.evaluate w name cases options).outcome ≠ .error .interrupted ∧
      (bench.evaluate w name cases options).world.clock.NeverInterrupts ∧
      (bench.evaluate w name cases options).world.observer.NeverFails := by
  rw [evaluate]
  cases bench.find? name with
  | none =>
    refine ⟨fun e => ?_, hclock, hobserver⟩
    cases e
  | some r =>
    have hkept := Session.evaluate_undisturbed hA bench.policy name cases options
      ⟨r, w.clock, w.observer, w.log⟩ ⟨hclock, hobserver⟩
    dsimp only
    generalize Session.evaluate bench.policy name cases options
      ⟨r, w.clock, w.observer, w.log⟩ = ended at hkept
    rcases ended with ⟨result, s⟩ | ⟨halt, s⟩
    · refine ⟨fun e => ?_, hkept⟩
      cases e
    · exact ⟨fun e => hkept.2 (Except.error.inj e), hkept.1⟩

/-- Evaluations one after the other come to results, whichever of them fail. -/
theorem evaluateNames_ok (names : List Text) (bench : Bench A) {w : World R}
    (hclock : w.clock.NeverInterrupts) (hobserver : w.observer.NeverFails) :
    ∃ results, (evaluateNames cases optionsOf names bench w).outcome = .ok results := by
  induction names generalizing bench w with
  | nil => exact ⟨[], rfl⟩
  | cons name rest ih =>
    obtain ⟨houtcome, hclock', hobserver'⟩ :=
      evaluate_undisturbed hA cases bench hclock hobserver name (optionsOf name)
    rw [evaluateNames]
    generalize bench.evaluate w name cases (optionsOf name) = turn at houtcome hclock' hobserver'
    rcases turn with ⟨(failure | _) | result, bench', w'⟩
    · dsimp only
      rw [World.tell, hobserver']
      exact ih bench' hclock' hobserver'
    · exact absurd rfl houtcome
    · obtain ⟨results, hresults⟩ := ih bench' hclock' hobserver'
      refine ⟨(name, result) :: results, ?_⟩
      dsimp only
      rw [hresults]
      rfl

/-- An evaluation of all approaches comes to results if the clock is steady. -/
theorem evaluateAll_ok (bench : Bench A) {w : World R} (hclock : w.clock.Steady)
    (hobserver : w.observer.NeverFails) :
    ∃ results, (bench.evaluateAll w cases optionsOf).outcome = .ok results :=
  evaluateNames_ok hA optionsOf cases bench.names bench hclock.neverInterrupts hobserver

end Bench

end Undisturbed

end TypeBench
