import TypeBench.Proofs.Evaluation.Record
import TypeBench.Proofs.Text.Order

/-!
# The registry over a history of calls

Approaches are told apart by the number of their registration. A name keeps the place of its first
registration and the approach of its last one. Evaluations in between, however they end, call the
approach that a name has and no other one, and change no name and no number, so this holds after
every history of calls.

## Main definitions

* `LogEntry.registrations`, `LogEntry.callsOf`: what a record tells of registrations, and the calls
  of one approach in it.
* `Bench.Tracks`: a bench that holds approaches registered in order, after the calls of a record.

## Main results

* `Bench.Tracks.add`, `Bench.Tracks.evaluate`: what one call keeps.
* `Bench.Tracks.performAll`: what a history of calls keeps.
* `Bench.registry_of_calls`: names, approaches, registrations and evaluations after a history.
-/

namespace TypeBench

/-! ### Records -/

/-- The name that an event tells to be registered, and whether it tells that the name was so
before. -/
def EvaluationEvent.registration? {R : Type} : EvaluationEvent R → Option (Text × Bool)
  | .registered approach replaced => some (approach, replaced)
  | _ => none

namespace LogEntry

variable {R : Type}

/-- What a record tells of registrations. -/
def registrations (log : List (LogEntry R)) : List (Text × Bool) :=
  (told log).filterMap EvaluationEvent.registration?

/-- The calls of the approach of a number in a record. -/
def callsOf (number : Nat) (log : List (LogEntry R)) : List Call :=
  ((calls log).filter (·.1 = number)).map (·.2)

theorem registrations_append (log more : List (LogEntry R)) :
    registrations (log ++ more) = registrations log ++ registrations more := by
  rw [registrations, told_append, List.filterMap_append]
  rfl

theorem callsOf_append (number : Nat) (log more : List (LogEntry R)) :
    callsOf number (log ++ more) = callsOf number log ++ callsOf number more := by
  rw [callsOf, calls_append, List.filter_append, List.map_append]
  rfl

variable {A α : Type} [Approach A] {name : Text} {r : Registration A} {cases : List TestCase}
  {options : Options} {start : Except Failure Unit} {outcome : Except Halt α}
  {run : List (LogEntry R)}

/-- No evaluation tells of a registration. -/
theorem IsRun.registrations_eq (h : IsRun name r cases options start outcome run) :
    registrations run = [] := by
  obtain ⟨rest, rfl, hrest⟩ := h.exists_rest
  have hnone : ∀ e ∈ told rest, e.registration? = none := by
    intro e he
    have hwithin := hrest.told e he
    cases e with
    | registered => cases hwithin
    | _ => rfl
  exact List.filterMap_eq_nil_iff.2 (List.forall_mem_cons.2 ⟨rfl, hnone⟩)

/-- The calls of an evaluation are those of its own approach. -/
theorem IsRun.forall_mem_calls (h : IsRun name r cases options start outcome run) :
    ∀ c ∈ calls run, c.1 = r.number := by
  intro c hc
  cases start with
  | error failure =>
    obtain ⟨-, rfl⟩ := h.refused failure rfl
    cases hc
  | ok =>
    obtain ⟨asked, isDisposed, -, hcalls, -⟩ := h.called rfl
    rw [hcalls] at hc
    obtain ⟨call, -, rfl⟩ := List.mem_map.1 hc
    rfl

theorem IsRun.callsOf_eq (h : IsRun name r cases options start outcome run) (other : Nat) :
    callsOf other run = if other = r.number then (calls run).map (·.2) else [] := by
  rw [callsOf]
  split_ifs with hother
  · have hall : ∀ c ∈ calls run, decide (c.1 = other) = true := fun c hc =>
      decide_eq_true ((h.forall_mem_calls c hc).trans hother.symm)
    rw [List.filter_eq_self.2 hall]
  · have hnone : ∀ c ∈ calls run, ¬decide (c.1 = other) = true := fun c hc hnumber =>
      hother ((of_decide_eq_true hnumber).symm.trans (h.forall_mem_calls c hc))
    rw [List.filter_eq_nil_iff.2 hnone, List.map_nil]

/-- An evaluation whose start is not refused sets its approach up first. -/
theorem IsRun.head?_calls (h : IsRun name r cases options start outcome run)
    (hstart : start = .ok ()) :
    (calls run).head? = some (r.number, .configure options) := by
  obtain ⟨asked, isDisposed, -, hcalls, -⟩ := h.called hstart
  rw [hcalls]
  rfl

/-- An evaluation that comes to a result calls its approach for all test cases. -/
theorem IsRun.calls_of_ok {result : α}
    (h : IsRun name r cases options start (.ok result) run) :
    calls run = ((.configure options :: cases.map Call.ofCase) ++ [Call.dispose]).map
      (r.number, ·) := by
  cases start with
  | error failure =>
    obtain ⟨herror, -⟩ := h.refused failure rfl
    cases herror
  | ok =>
    obtain ⟨asked, isDisposed, -, hcalls, hall, hhalted⟩ := h.called rfl
    obtain rfl := hall result rfl
    cases isDisposed with
    | false => cases hhalted rfl
    | true => exact hcalls

end LogEntry

namespace Bench

variable {R A : Type} [Approach A]

/-! ### What a bench holds -/

/-- A bench holds approaches that were registered in order, after the calls of a record: names stand
in the order of their first registration, and each has the approach of its last one, which is as its
own calls have left it. The record tells of all registrations, and whether each name was registered
before. -/
structure Tracks (registered : List A) (log : List (LogEntry R)) (bench : Bench A) : Prop where
  count_eq : bench.count = registered.length
  names_eq : bench.names = (registered.map Approach.name).eraseDups
  latest : ∀ before a later, registered = before ++ a :: later →
    (∀ b ∈ later, Approach.name b ≠ Approach.name a) →
    bench.find? (Approach.name a) =
      some ⟨before.length, (LogEntry.callsOf before.length log).foldl Approach.after a⟩
  owner : ∀ name r, bench.find? name = some r →
    (registered[r.number]?).map Approach.name = some name
  below : ∀ c ∈ LogEntry.calls log, c.1 < registered.length
  registrations_length : (LogEntry.registrations log).length = registered.length
  replaced : ∀ before a later, registered = before ++ a :: later →
    (LogEntry.registrations log)[before.length]? =
      some (Approach.name a, (before.map Approach.name).contains (Approach.name a))

theorem tracks_empty (policy : ScoringPolicy) :
    Tracks (R := R) ([] : List A) [] (Bench.empty policy) where
  count_eq := rfl
  names_eq := rfl
  latest before a later h :=
    absurd h.symm (List.append_ne_nil_of_right_ne_nil _ (List.cons_ne_nil _ _))
  owner _ _ h := by cases h
  below := List.forall_mem_nil _
  registrations_length := rfl
  replaced before a later h :=
    absurd h.symm (List.append_ne_nil_of_right_ne_nil _ (List.cons_ne_nil _ _))

variable {registered : List A} {log : List (LogEntry R)} {bench : Bench A}

theorem Tracks.find?_eq_none_iff (h : Tracks registered log bench) (name : Text) :
    bench.find? name = none ↔ name ∉ registered.map Approach.name := by
  rw [← List.mem_eraseDups, ← h.names_eq]
  exact (not_iff_comm.1 (Named.mem_names_iff name bench.registry).symm).symm

theorem Tracks.number_lt (h : Tracks registered log bench) {name : Text}
    {r : Registration A} (hfind : bench.find? name = some r) : r.number < registered.length := by
  obtain ⟨a, ha, -⟩ := Option.map_eq_some_iff.1 (h.owner name r hfind)
  exact (List.getElem?_eq_some_iff.1 ha).1

/-- Registering one more approach. -/
theorem Tracks.add (h : Tracks registered log bench) (a : A) :
    Tracks (registered ++ [a]) (log ++ [.event (bench.registered a)]) (bench.add a) where
  count_eq := by
    rw [List.length_append, List.length_singleton, ← h.count_eq]
    rfl
  names_eq := by
    have hnames : (bench.add a).names =
        if bench.names.contains (Approach.name a) then bench.names
        else bench.names ++ [Approach.name a] := names_keep ..
    rw [hnames, List.map_append, List.map_singleton]
    by_cases hmem : Approach.name a ∈ registered.map Approach.name
    · rw [eraseDups_append_of_mem hmem, h.names_eq,
        if_pos (List.contains_iff_mem.2 (List.mem_eraseDups.2 hmem))]
    · rw [eraseDups_append_of_notMem hmem, h.names_eq,
        if_neg fun hcontains => hmem (List.mem_eraseDups.1 (List.contains_iff_mem.1 hcontains))]
  latest := by
    intro before b later hsplit hlater
    have hfind : (bench.add a).find? (Approach.name b) =
        if Approach.name b = Approach.name a then some ⟨bench.count, a⟩
        else bench.find? (Approach.name b) := find?_keep ..
    have hcalls (number : Nat) : LogEntry.callsOf number (log ++ [.event (bench.registered a)]) =
        LogEntry.callsOf number log := by
      rw [LogEntry.callsOf_append]
      exact List.append_nil _
    rw [hfind, hcalls]
    rcases append_singleton_eq hsplit with ⟨rfl, rfl, -⟩ | ⟨later', rfl, rfl⟩
    · have hnone : LogEntry.callsOf registered.length log = [] := by
        rw [LogEntry.callsOf, List.map_eq_nil_iff]
        refine List.filter_eq_nil_iff.2 fun c hc hnumber => ?_
        exact Nat.ne_of_lt (h.below c hc) (of_decide_eq_true hnumber)
      rw [if_pos rfl, h.count_eq, hnone]
      rfl
    · have hne : Approach.name a ≠ Approach.name b := hlater a (by simp)
      rw [if_neg hne.symm]
      exact h.latest before b later' rfl fun c hc => hlater c (List.mem_append_left _ hc)
  owner := by
    intro name r hfind
    have hfind' : (bench.add a).find? name =
        if name = Approach.name a then some ⟨bench.count, a⟩ else bench.find? name :=
      find?_keep ..
    rw [hfind'] at hfind
    split_ifs at hfind with hname
    · obtain rfl := Option.some.inj hfind
      rw [h.count_eq, List.getElem?_concat_length, Option.map_some, hname]
    · rw [List.getElem?_append_left (h.number_lt hfind)]
      exact h.owner name r hfind
  below := by
    rw [LogEntry.calls_append, List.length_append]
    exact List.forall_mem_append.2
      ⟨fun c hc => Nat.lt_add_right _ (h.below c hc), List.forall_mem_nil _⟩
  registrations_length := by
    rw [LogEntry.registrations_append, List.length_append, List.length_append,
      h.registrations_length]
    rfl
  replaced := by
    intro before b later hsplit
    rw [LogEntry.registrations_append]
    rcases append_singleton_eq hsplit with ⟨rfl, rfl, -⟩ | ⟨later', rfl, rfl⟩
    · have hevent : LogEntry.registrations [.event (bench.registered (R := R) a)] =
          [(Approach.name a, (bench.find? (Approach.name a)).isSome)] := rfl
      have hreplaced : (bench.find? (Approach.name a)).isSome =
          (registered.map Approach.name).contains (Approach.name a) := by
        rw [Bool.eq_iff_iff, List.contains_iff_mem, Option.isSome_iff_ne_none]
        exact (not_congr (h.find?_eq_none_iff _)).trans Decidable.not_not
      rw [hevent, hreplaced, ← h.registrations_length, List.getElem?_concat_length]
    · rw [List.getElem?_append_left]
      · exact h.replaced before b later' rfl
      · rw [h.registrations_length, List.length_append, List.length_cons]
        omega

/-- An event that tells of no registration changes nothing. -/
theorem Tracks.event (h : Tracks registered log bench) {e : EvaluationEvent R}
    (he : e.registration? = none) : Tracks registered (log ++ [.event e]) bench := by
  have hcalls : LogEntry.calls (log ++ [.event e]) = LogEntry.calls log := by
    rw [LogEntry.calls_append]
    exact List.append_nil _
  have hregistrations : LogEntry.registrations (log ++ [.event e]) =
      LogEntry.registrations log := by
    rw [LogEntry.registrations_append]
    exact (congrArg _ (List.filterMap_cons_none he)).trans (List.append_nil _)
  exact
    { h with
      latest := by simpa only [LogEntry.callsOf, hcalls] using h.latest
      below := hcalls ▸ h.below
      registrations_length := hregistrations ▸ h.registrations_length
      replaced := hregistrations ▸ h.replaced }

/-- A run of a registered approach changes this approach alone. -/
theorem Tracks.run (h : Tracks registered log bench) {name : Text} {r : Registration A}
    (hfind : bench.find? name = some r) {cases : List TestCase} {options : Options}
    {start : Except Failure Unit} {α : Type} {outcome : Except Halt α} {run : List (LogEntry R)}
    (hrun : LogEntry.IsRun name r cases options start outcome run) :
    Tracks registered (log ++ run)
      (bench.keep name
        ⟨r.number, ((LogEntry.calls run).map (·.2)).foldl Approach.after r.approach⟩) where
  count_eq := h.count_eq
  names_eq := by
    have hname : name ∈ bench.names := by
      rw [names, Named.mem_names_iff]
      exact fun hnone => Option.some_ne_none r (hfind.symm.trans hnone)
    rw [names_keep, if_pos (List.contains_iff_mem.2 hname), h.names_eq]
  latest := by
    intro before a later hsplit hlater
    have hlatest := h.latest before a later hsplit hlater
    rw [find?_keep, LogEntry.callsOf_append, hrun.callsOf_eq]
    by_cases hname : Approach.name a = name
    · rw [hname, hfind] at hlatest
      obtain rfl := Option.some.inj hlatest
      rw [if_pos hname, if_pos rfl, List.foldl_append]
    · -- Another name has an approach of another number, of which the run holds no calls.
      have hnumber : before.length ≠ r.number := by
        intro hnumber
        have howner := h.owner name r hfind
        rw [← hnumber, hsplit, List.getElem?_append_right (Nat.le_refl _), Nat.sub_self] at howner
        exact hname (Option.some.inj howner)
      rw [if_neg hname, if_neg hnumber, List.append_nil, hlatest]
  owner := by
    intro other r' hfind'
    rw [find?_keep] at hfind'
    split_ifs at hfind' with hother
    · obtain rfl := Option.some.inj hfind'
      rw [hother]
      exact h.owner name r hfind
    · exact h.owner other r' hfind'
  below := by
    rw [LogEntry.calls_append]
    refine List.forall_mem_append.2 ⟨h.below, fun c hc => ?_⟩
    rw [hrun.forall_mem_calls c hc]
    exact h.number_lt hfind
  registrations_length := by
    rw [LogEntry.registrations_append, hrun.registrations_eq, List.append_nil]
    exact h.registrations_length
  replaced := by
    rw [LogEntry.registrations_append, hrun.registrations_eq, List.append_nil]
    exact h.replaced

/-! ### Histories of calls -/

variable [Quantity R]

/-- A bench in its world holds approaches after all that was recorded since a record. -/
def TracksSince (start : List (LogEntry R)) (registered : List A) (bench : Bench A)
    (world : World R) : Prop :=
  ∃ added, world.log = start ++ added ∧ Tracks registered added bench

variable {start : List (LogEntry R)} {world : World R}

/-- An evaluation keeps what a bench holds, however it ends. -/
theorem TracksSince.evaluate (h : TracksSince start registered bench world) (name : Text)
    (cases : List TestCase) (options : Options) :
    TracksSince start registered (bench.evaluate world name cases options).bench
      (bench.evaluate world name cases options).world := by
  obtain ⟨added, hlog, hbench⟩ := h
  cases hfind : bench.find? name with
  | none =>
    rw [evaluate_of_not_registered hfind]
    exact ⟨added, hlog, hbench⟩
  | some r =>
    obtain ⟨run, hrun, hlog', -, hbench'⟩ := exists_run hfind world cases options
    refine ⟨added ++ run, ?_, ?_⟩
    · rw [hlog', hlog, List.append_assoc]
    · rw [hbench']
      exact hbench.run hfind hrun

/-- So do evaluations one after the other. -/
theorem TracksSince.evaluateAll (h : TracksSince start registered bench world)
    (cases : List TestCase) (optionsOf : Text → Options) :
    TracksSince start registered (bench.evaluateAll world cases optionsOf).bench
      (bench.evaluateAll world cases optionsOf).world := by
  refine evaluateNames_keeps (fun bench world name h => h.evaluate name cases (optionsOf name)) ?_
    bench.names h
  rintro bench world name reason ⟨added, hlog, hbench⟩
  refine ⟨added ++ [.event (.evaluationFailed name reason)], ?_, hbench.event rfl⟩
  rw [World.record, hlog, List.append_assoc]

/-- A call adds the approach that it registers, if any, to those that a bench holds. -/
theorem TracksSince.perform (h : TracksSince start registered bench world)
    (call : BenchCall A) :
    TracksSince start (registered ++ call.registered?.toList)
      (BenchCall.perform (bench, world) call).1 (BenchCall.perform (bench, world) call).2 := by
  cases call with
  | register approach =>
    obtain ⟨added, hlog, hbench⟩ := h
    have hlog' : (world.record (bench.registered approach)).log =
        start ++ (added ++ [.event (bench.registered approach)]) := by
      rw [World.record, hlog, List.append_assoc]
    exact ⟨_, hlog', hbench.add approach⟩
  | evaluate name cases options =>
    have hsame : registered ++ (BenchCall.evaluate (A := A) name cases options).registered?.toList =
        registered := List.append_nil _
    exact hsame.symm ▸ h.evaluate name cases options
  | evaluateAll cases optionsOf =>
    have hsame : registered ++ (BenchCall.evaluateAll (A := A) cases optionsOf).registered?.toList =
        registered := List.append_nil _
    exact hsame.symm ▸ h.evaluateAll cases optionsOf

/-- After a history of calls a bench holds the approaches that were registered before and in it. -/
theorem TracksSince.performAll (h : TracksSince start registered bench world)
    (calls : List (BenchCall A)) :
    TracksSince start (registered ++ calls.filterMap BenchCall.registered?)
      (BenchCall.performAll calls (bench, world)).1
      (BenchCall.performAll calls (bench, world)).2 := by
  induction calls generalizing registered bench world with
  | nil =>
    rw [List.filterMap_nil, List.append_nil]
    exact h
  | cons call rest ih =>
    have hcall : (call :: rest).filterMap BenchCall.registered? =
        call.registered?.toList ++ rest.filterMap BenchCall.registered? := by
      cases hregistered : call.registered? with
      | none => rw [List.filterMap_cons_none hregistered]; rfl
      | some a => rw [List.filterMap_cons_some hregistered]; rfl
    rw [hcall, ← List.append_assoc]
    exact ih (h.perform call)

/-- **The registry over a history of calls.** After any calls that register and evaluate approaches
on an empty bench, whatever their outcomes, the names are those of the registered approaches without
repetitions. A name has the approach that was registered under it last, which is as its own calls
have left it, and other names have none. The registrations that the record tells of are those of the
history, and a name is told to be replaced if it was registered before. An evaluation of a name
records a run of the approach that the name has, which is kept as the calls of the run leave it;
where the observer never fails, this is a course of the approach.
Evaluating all approaches records runs of the approaches that the names have, in the order of the
names, up to one that ends them all. Neither changes the numbers under the names. -/
theorem registry_of_calls (policy : ScoringPolicy) (world : World R) (calls : List (BenchCall A)) :
    ∃ (registered : List A) (bench : Bench A) (world' : World R) (added : List (LogEntry R)),
      registered = calls.filterMap BenchCall.registered? ∧
      BenchCall.performAll calls (Bench.empty policy, world) = (bench, world') ∧
      world'.log = world.log ++ added ∧
      bench.names = (registered.map Approach.name).eraseDups ∧
      (∀ before a later, registered = before ++ a :: later →
        (∀ b ∈ later, Approach.name b ≠ Approach.name a) →
        bench.find? (Approach.name a) =
          some ⟨before.length, (LogEntry.callsOf before.length added).foldl Approach.after a⟩) ∧
      (∀ name, bench.find? name = none ↔ name ∉ registered.map Approach.name) ∧
      (LogEntry.registrations added).length = registered.length ∧
      (∀ before a later, registered = before ++ a :: later →
        (LogEntry.registrations added)[before.length]? =
          some (Approach.name a, (before.map Approach.name).contains (Approach.name a))) ∧
      (∀ name cases options,
        let turn := bench.evaluate world' name cases options
        turn.bench.numbers = bench.numbers ∧
        (bench.find? name = none →
          turn = ⟨.error (.failed (.bench (.unregistered name))), bench, world'⟩) ∧
        ∀ r, bench.find? name = some r →
          ∃ run, LogEntry.IsRun name r cases options
              (world'.tell (.evaluationStarted name cases.length)) turn.outcome run ∧
            turn.world.log = world'.log ++ run ∧
            turn.bench = bench.keep name
              ⟨r.number, ((LogEntry.calls run).map (·.2)).foldl Approach.after r.approach⟩ ∧
            (world'.observer.NeverFails → LogEntry.IsCourse bench.policy name r cases options
              world'.clock turn.outcome run)) ∧
      ∀ cases optionsOf,
        let turn := bench.evaluateAll world' cases optionsOf
        turn.bench.numbers = bench.numbers ∧
        ∃ runs, AreRuns bench.find? cases optionsOf bench.names world'.observer world'.log
            turn.outcome runs ∧
          turn.world.log = world'.log ++ runs.flatMap (·.recorded) := by
  have hempty : TracksSince world.log ([] : List A) (Bench.empty policy) world :=
    ⟨[], (List.append_nil _).symm, tracks_empty policy⟩
  obtain ⟨added, hlog, hbench⟩ := hempty.performAll calls
  generalize BenchCall.performAll calls (Bench.empty policy, world) = state at hlog hbench ⊢
  obtain ⟨bench, world'⟩ := state
  have hnodup : bench.names.Nodup := by
    rw [hbench.names_eq]
    exact nodup_eraseDups _
  refine ⟨_, bench, world', added, rfl, rfl, hlog, hbench.names_eq, hbench.latest,
    hbench.find?_eq_none_iff, hbench.registrations_length, hbench.replaced,
    fun name cases options => ⟨numbers_evaluate bench world' name cases options,
      fun hfind => evaluate_of_not_registered hfind world' cases options, fun r hfind => ?_⟩,
    fun cases optionsOf => ⟨numbers_evaluateAll bench world' cases optionsOf,
      exists_runs_all hnodup world' cases optionsOf⟩⟩
  obtain ⟨run, hrun, hlog, -, hkept⟩ := exists_run hfind world' cases options
  exact ⟨run, hrun, hlog, hkept, fun hobserver => isCourse_of_log hfind hobserver hlog⟩

/-- Calls that register an approach that cannot be disposed of and another one, evaluate the first
one, and register a better one of its name. -/
def secondThoughts : List (BenchCall Script) :=
  [.register { obliging with done := .error (.raised (Text.ofString "stays")) },
    .register forgetful, .evaluate obliging.name oneCase [], .register obliging]

/-- A world whose clock fails at its first reading only. -/
def startledWorld : World Binary64 :=
  ⟨.ofReadings [.failure (Text.ofString "stopped"), .time (.whole 3)], .silent, []⟩

/-- The name keeps its place, has the approach that was registered third, and is told to be
replaced. Its next evaluation sets this approach up, calls it for the test case and disposes of it,
and an evaluation of all approaches sets up this one and then the other one. -/
theorem registry_of_calls_secondThoughts :
    ∃ (bench : Bench Script) (world : World Binary64) (added run : List (LogEntry Binary64))
      (runs : List (Run Binary64)),
      BenchCall.performAll secondThoughts (Bench.empty .lenient, startledWorld) = (bench, world) ∧
      bench.names = [obliging.name, forgetful.name] ∧
      (bench.find? obliging.name).map (·.number) = some 2 ∧
      world.log = [] ++ added ∧
      (LogEntry.registrations added)[2]? = some (obliging.name, true) ∧
      (bench.evaluate world obliging.name oneCase []).world.log = world.log ++ run ∧
      LogEntry.calls run =
        [(2, .configure []), (2, .predict (Text.ofString "const a = 1;") (Text.ofString "c1")),
          (2, .dispose)] ∧
      (bench.evaluateAll world oneCase fun _ => []).world.log =
        world.log ++ runs.flatMap (·.recorded) ∧
      runs.map (·.name) = [obliging.name, forgetful.name] ∧
      runs.map (fun run => (LogEntry.calls run.entries).head?) =
        [some (2, .configure []), some (1, .configure [])] := by
  obtain ⟨registered, bench, world, added, rfl, hperform, hlog, hnames, hlatest, -, -, hreplaced,
    hevaluate, hevaluateAll⟩ := registry_of_calls .lenient startledWorld secondThoughts
  have hfind := hlatest [{ obliging with done := .error (.raised (Text.ofString "stays")) },
    forgetful] obliging [] rfl (List.forall_mem_nil _)
  have hfind' := hlatest [{ obliging with done := .error (.raised (Text.ofString "stays")) }]
    forgetful [obliging] rfl (by decide)
  obtain ⟨run, hrun, hlog', -⟩ := (hevaluate obliging.name oneCase []).2.2 _ hfind
  obtain ⟨-, runs, hruns, hlog''⟩ := hevaluateAll oneCase fun _ => []
  have hdistinct : ([obliging, forgetful, obliging].map Script.name).eraseDups =
      [obliging.name, forgetful.name] := by decide
  have htwice : ([obliging, forgetful].map Script.name).contains obliging.name = true := by decide
  have hsilent : world.observer = .silent := (congrArg (·.2.observer) hperform).symm
  have hcalls : LogEntry.calls run =
      [(2, .configure []), (2, .predict (Text.ofString "const a = 1;") (Text.ofString "c1")),
        (2, .dispose)] := by
    have htotal : (bench.evaluate world obliging.name oneCase []).outcome.toOption.map (·.total) =
        some 0 :=
      (congrArg (fun state => (state.1.evaluate state.2 obliging.name oneCase
        []).outcome.toOption.map (·.total)) hperform).symm.trans (by decide +kernel)
    generalize (bench.evaluate world obliging.name oneCase []).outcome = outcome at htotal hrun
    cases outcome with
    | error halt => cases htotal
    | ok result => exact hrun.calls_of_ok
  have hall : runs.map (·.name) = [obliging.name, forgetful.name] := by
    have hends : (bench.evaluateAll world oneCase fun _ => []).outcome.toOption.map Named.names =
        some [obliging.name] :=
      (congrArg (fun state => (state.1.evaluateAll state.2 oneCase fun _ => []).outcome.toOption.map
        Named.names) hperform).symm.trans (by decide +kernel)
    generalize (bench.evaluateAll world oneCase fun _ => []).outcome = outcome at hends hruns
    cases outcome with
    | error halt => cases hends
    | ok results => exact (hruns.results results rfl).1.trans (hnames.trans hdistinct)
  refine ⟨bench, world, added, run, runs, hperform, hnames.trans hdistinct, ?_, hlog, ?_, hlog',
    hcalls, hlog'', hall, ?_⟩
  · exact congrArg (Option.map (·.number)) hfind
  · exact (hreplaced [_, forgetful] obliging [] rfl).trans
      (congrArg (fun replaced => some (obliging.name, replaced)) htwice)
  · obtain ⟨first, others, rfl, hfirst, hothers⟩ := List.map_eq_cons_iff.1 hall
    obtain ⟨second, _, rfl, hsecond, hnone⟩ := List.map_eq_cons_iff.1 hothers
    obtain rfl := List.map_eq_nil_iff.1 hnone
    obtain ⟨⟨r, hr, hrun⟩, -⟩ := hruns.isOf [] first [second] rfl
    obtain ⟨⟨r', hr', hrun'⟩, -⟩ := hruns.isOf [first] second [] rfl
    rw [hfirst] at hr
    rw [hsecond] at hr'
    obtain rfl := Option.some.inj (hfind.symm.trans hr)
    obtain rfl := Option.some.inj (hfind'.symm.trans hr')
    rw [hsilent] at hrun hrun'
    exact congr (congrArg (fun c c' => [c, c']) (hrun.head?_calls rfl)) (hrun'.head?_calls rfl)

end Bench

end TypeBench
