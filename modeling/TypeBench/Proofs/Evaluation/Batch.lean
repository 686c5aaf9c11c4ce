import TypeBench.Proofs.Evaluation.Repetition
import TypeBench.Proofs.Evaluation.Success
import TypeBench.Proofs.Evaluation.Use

/-!
# Results of all approaches

An evaluation of all approaches tells of every start, and its results are those of evaluations of
single approaches. So their names stand in the order of the approaches, and what is known of an
approach however it is used is known of the approach of each result. All this holds whatever the
observer does.

## Main definitions

* `LogEntry.started`: the approaches whose evaluation was started, in a record.
* `Bench.Holds`: a property of all approaches of a bench that is kept when they are used.

## Main results

* `Bench.started_evaluate`: an evaluation tells of its start, once.
* `Bench.evaluateNames_courses`: evaluations one after the other tell of every start, and their
  results are those of courses.
-/

namespace TypeBench

/-! ### Starts in records -/

namespace LogEntry

variable {R : Type}

/-- The approaches whose evaluation was started, in a record. -/
def started (log : List (LogEntry R)) : List Text := (told log).filterMap EvaluationEvent.started?

@[simp] theorem started_append (log more : List (LogEntry R)) :
    started (log ++ more) = started log ++ started more := by
  rw [started, told_append, List.filterMap_append]
  rfl

@[simp] theorem started_ofCall (number : Nat) (c : Call) (events : List ApproachEvent) :
    started (R := R) (ofCall number c events) = [] := by
  rw [started, told_ofCall]
  rfl

@[simp] theorem started_singleton (e : EvaluationEvent R) :
    started [LogEntry.event e] = e.started?.toList := by
  rw [started, told_cons_event]
  cases h : e.started? with
  | none => exact List.filterMap_cons_none h
  | some name => exact List.filterMap_cons_some h

theorem started_event {e : EvaluationEvent R} (h : e.started? = none) :
    started [LogEntry.event e] = [] := by
  rw [started_singleton, h]
  rfl

end LogEntry

open LogEntry

/-! ### Single evaluations -/

namespace Session

variable {R A : Type}

theorem started_record {s : Session R A} {e : EvaluationEvent R} (h : e.started? = none) :
    started (s.record e).log = started s.log := by
  rw [record, started_append, started_event h, List.append_nil]

theorem started_afterCall {α : Type} (s : Session R A) (c : Call) (reply : Reply A α) :
    started (s.afterCall c reply).log = started s.log := by
  rw [afterCall_eq, advance, started_append, started_ofCall, List.append_nil]

variable [Approach A]

/-- No step tells of a start. -/
theorem stepInvariant_started (name : Text) (names : List Text) :
    StepInvariant (R := R) (A := A) name (fun s => started s.log = names) fun _ => True where
  tell _ he := .tell (fun _ => trivial) fun _ hs => (started_record he).trans hs
  readClock := .readClock fun _ hs => ⟨hs, fun _ _ => trivial⟩
  call _ _ := .call fun s hs => ⟨(started_afterCall s _ _).trans hs, fun _ _ => trivial⟩
  range _ := trivial
  undisposed _ _ := trivial

/-- An evaluation tells of its start, once. -/
theorem started_evaluate [Quantity R] (policy : ScoringPolicy) (name : Text)
    (cases : List TestCase) (options : Options) (s : Session R A) :
    started (left (evaluate policy name cases options s)).log = started s.log ++ [name] := by
  have hcall {α : Type} (c : Call) (answer : A → Reply A α) :
      Keeps (R := R) (fun s' => started s'.log = started s.log ++ [name]) (fun _ => True)
        (call c answer) :=
    .call fun s' hs' => ⟨(started_afterCall s' _ _).trans hs', fun _ _ => trivial⟩
  refine ((stepInvariant_started name (started s.log ++ [name])).evaluate (fun _ _ _ => trivial)
    (hcall _ _) (hcall _ _) (kept_of_left ?_)).left
  have hrecord : started (s.record (.evaluationStarted name cases.length)).log =
      started s.log ++ [name] := by
    rw [record, started_append]
    rfl
  rw [tell]
  split <;> exact hrecord

end Session

namespace Bench

variable {R A : Type} [Quantity R] [Approach A] {bench : Bench A} {world : World R} {name : Text}
  {registration : Registration A}

theorem started_evaluate (hfind : bench.find? name = some registration) (cases : List TestCase)
    (options : Options) :
    started (bench.evaluate world name cases options).world.log = started world.log ++ [name] := by
  rw [evaluate, hfind]
  dsimp only
  rw [log_turnOf, Session.started_evaluate]

/-- An evaluation keeps the approaches under their names. -/
theorem names_evaluate (hfind : bench.find? name = some registration) (cases : List TestCase)
    (options : Options) : (bench.evaluate world name cases options).bench.names = bench.names := by
  have hname : bench.names.contains name = true := by
    rw [List.contains_iff_mem]
    exact (Named.mem_names_iff name bench.registry).2 fun hnone => by
      rw [find?, hnone] at hfind
      cases hfind
  rw [evaluate, hfind]
  dsimp only
  rw [bench_turnOf, names_keep, if_pos hname]

/-- A property of all approaches of a bench, which using them with their options keeps. -/
structure Holds (P : Text → A → Prop) (optionsOf : Text → Options) (bench : Bench A) : Prop where
  registered : ∀ name registration, bench.find? name = some registration →
    P name registration.approach
  used : ∀ name a a', P name a → Approach.Used (optionsOf name) a a' → P name a'

theorem Holds.evaluate {P : Text → A → Prop} {optionsOf : Text → Options}
    (h : Holds P optionsOf bench) (world : World R) (name : Text) (cases : List TestCase) :
    Holds P optionsOf (bench.evaluate world name cases (optionsOf name)).bench where
  registered := by
    cases hfind : bench.find? name with
    | none =>
      rw [Bench.evaluate, hfind]
      exact h.registered
    | some registration =>
      intro other r hr
      obtain ⟨r', hr', hused⟩ := exists_used hfind world cases (optionsOf name)
      by_cases hother : other = name
      · subst hother
        obtain rfl := Option.some.inj (hr'.symm.trans hr)
        exact h.used other _ _ (h.registered other registration hfind) hused
      · refine h.registered other r ?_
        rw [Bench.evaluate, hfind] at hr
        dsimp only at hr
        rwa [bench_turnOf, find?_keep, if_neg hother] at hr
  used := h.used

theorem policy_evaluate (world : World R) (cases : List TestCase) (options : Options) :
    (bench.evaluate world name cases options).bench.policy = bench.policy := by
  rw [evaluate]
  cases bench.find? name with
  | none => rfl
  | some registration =>
    dsimp only
    rw [bench_turnOf]
    rfl

/-! ### Evaluations one after the other -/

/-- A result that an approach with a property comes to. -/
def ComesTo (P : Text → A → Prop) (optionsOf : Text → Options) (policy : ScoringPolicy)
    (cases : List TestCase) (entry : Text × EvaluationResult R) : Prop :=
  ∃ (a a' : A) (clock clock' : Clock R) (done : List (CompletedCase R)), P entry.1 a ∧
    CourseRun policy entry.1 cases (optionsOf entry.1) a clock ⟨done, none, .ok entry.2⟩ a' clock'

theorem Holds.comesTo {P : Text → A → Prop} {optionsOf : Text → Options}
    (h : Holds P optionsOf bench) {cases : List TestCase} {result : EvaluationResult R}
    (hresult : (bench.evaluate world name cases (optionsOf name)).outcome = .ok result) :
    ComesTo P optionsOf bench.policy cases (name, result) := by
  obtain ⟨registration, done, a', clock', hfind, hrun⟩ := evaluate_ok hresult
  exact ⟨registration.approach, a', world.clock, clock', done, h.registered name _ hfind, hrun⟩

/-- Evaluations one after the other that come to results have told of every start, and the results
are in order and are those of courses. -/
theorem evaluateNames_courses {P : Text → A → Prop} {optionsOf : Text → Options}
    {cases : List TestCase} {names : List Text} {results : Results R}
    (hbench : Holds P optionsOf bench)
    (hnames : names ⊆ bench.names)
    (h : (evaluateNames cases optionsOf names bench world).outcome = .ok results) :
    started (evaluateNames cases optionsOf names bench world).world.log =
        started world.log ++ names ∧
      (Named.names results).Sublist names ∧
      ∀ entry ∈ results, ComesTo P optionsOf bench.policy cases entry := by
  induction names generalizing bench world results with
  | nil =>
    obtain rfl := Except.ok.inj h
    exact ⟨(List.append_nil _).symm, .slnil, nofun⟩
  | cons name rest ih =>
    obtain ⟨hname, hrest⟩ := List.cons_subset.1 hnames
    obtain ⟨registration, hfind⟩ :=
      Option.ne_none_iff_exists'.1 ((Named.mem_names_iff name bench.registry).1 hname)
    have hstarted : started (bench.evaluate world name cases (optionsOf name)).world.log =
        started world.log ++ [name] := started_evaluate hfind cases (optionsOf name)
    have hkept : (bench.evaluate world name cases (optionsOf name)).bench.names = bench.names :=
      names_evaluate hfind cases (optionsOf name)
    have hpolicy : (bench.evaluate world name cases (optionsOf name)).bench.policy =
        bench.policy := policy_evaluate world cases (optionsOf name)
    have hholds := hbench.evaluate world name cases
    have hresult (result : EvaluationResult R) :
        (bench.evaluate world name cases (optionsOf name)).outcome = .ok result →
          ComesTo P optionsOf bench.policy cases (name, result) := hbench.comesTo
    rw [evaluateNames] at h ⊢
    generalize bench.evaluate world name cases (optionsOf name) = turn at *
    obtain ⟨(failure | _) | result, bench', world'⟩ := turn
    · dsimp only at h ⊢
      cases htell : world'.tell (.evaluationFailed name failure.message) with
      | error second =>
        rw [htell] at h
        cases h
      | ok _ =>
        rw [htell] at h
        obtain ⟨hlog, hsublist, hresults⟩ := ih hholds (hkept ▸ hrest) h
        refine ⟨?_, hsublist.cons name, hpolicy ▸ hresults⟩
        rw [hlog, World.record, started_append, hstarted, started_event rfl, List.append_nil,
          List.append_assoc]
        rfl
    · cases h
    · dsimp only at h ⊢
      obtain ⟨later, hlater, rfl⟩ := exists_of_map_eq_ok h
      obtain ⟨hlog, hsublist, hresults⟩ := ih hholds (hkept ▸ hrest) hlater
      refine ⟨?_, hsublist.cons_cons name,
        List.forall_mem_cons.2 ⟨hresult result rfl, hpolicy ▸ hresults⟩⟩
      rw [hlog, hstarted, List.append_assoc]
      rfl

end Bench

end TypeBench
