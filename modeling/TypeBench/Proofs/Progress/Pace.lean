import TypeBench.Proofs.Progress.Rows

/-!
# Progress of evaluations

An evaluation tells of no more test cases than its start announces, and of none under another name.
The events of any calls of benches are paced for this reason: no test case of a name is done before
the first start of the name, and between two starts no more than the first of them announces. So the
rows of an observer of such events never count beyond their totals, wherever it is stopped.

## Main definitions

* `EvaluationEvent.IsBounded`, `EvaluationEvent.IsPaced`: events that keep to the totals.
* `LogEntry.IsPacedSince`: records to which paced events were added.
* `BenchCall.stream`: the events that are told during a call of a bench.

## Main results

* `EvaluationEvent.IsPaced.append`: paced events after paced events.
* `LogEntry.IsRun.isPaced`, `BenchCall.isPaced_stream`: the events of evaluations are paced.
* `Progress.Follows.completed_le_total`: rows after bounded events.
* `Progress.rows_of_calls`: counts and rows after any calls.
-/

namespace TypeBench

variable {R : Type}

/-! ### Paced events -/

namespace EvaluationEvent

/-- From a start to the next one of the same name no more test cases are done than are announced. -/
def IsBounded (events : List (EvaluationEvent R)) : Prop :=
  ∀ a total own, .evaluationStarted a total :: own <:+: events →
    (∀ e ∈ own, e.started? ≠ some a) → own.countP (·.completes a) ≤ total

/-- Bounded events in which no test case of a name is done before the first start of the name. -/
structure IsPaced (events : List (EvaluationEvent R)) : Prop where
  isBounded : IsBounded events
  isLed : ∀ a own, own <+: events → (∀ e ∈ own, e.started? ≠ some a) →
    own.countP (·.completes a) = 0

variable {events more : List (EvaluationEvent R)}

theorem IsBounded.of_infix (h : IsBounded events) (hpart : more <:+: events) : IsBounded more :=
  fun a total own hown => h a total own (hown.trans hpart)

theorem isPaced_nil : IsPaced ([] : List (EvaluationEvent R)) where
  isBounded _ _ _ h := absurd (List.eq_nil_of_infix_nil h) (List.cons_ne_nil _ _)
  isLed _ _ h _ := by rw [List.prefix_nil.1 h, List.countP_nil]

/-- Paced events after paced events: those that are done in the second ones before a start belong to
no start of the first ones. -/
theorem IsPaced.append (h : IsPaced events) (h' : IsPaced more) : IsPaced (events ++ more) where
  isBounded := by
    intro a total own hown hnone
    rcases List.infix_append_iff.1 hown with
      hown | hown | ⟨first, second, hsplit, hsuffix, hinitial⟩
    · exact h.isBounded a total own hown hnone
    · exact h'.isBounded a total own hown hnone
    · rcases List.cons_eq_append_iff.1 hsplit with ⟨rfl, rfl⟩ | ⟨first', rfl, rfl⟩
      · exact h'.isBounded a total own hinitial.isInfix hnone
      · obtain ⟨hfirst, hsecond⟩ := List.forall_mem_append.1 hnone
        rw [List.countP_append, h'.isLed a second hinitial hsecond]
        exact h.isBounded a total first' hsuffix.isInfix hfirst
  isLed := by
    intro a own hown hnone
    rcases List.prefix_or_prefix_of_prefix hown (List.prefix_append events more) with
      hown | ⟨rest, rfl⟩
    · exact h.isLed a own hown hnone
    · obtain ⟨hevents, hrest⟩ := List.forall_mem_append.1 hnone
      rw [List.countP_append, h.isLed a events List.prefix_rfl hevents,
        h'.isLed a rest ((List.prefix_append_right_inj events).1 hown) hrest]

theorem isPaced_flatMap {α : Type} {parts : List α} {f : α → List (EvaluationEvent R)}
    (h : ∀ part ∈ parts, IsPaced (f part)) : IsPaced (parts.flatMap f) := by
  induction parts with
  | nil => exact isPaced_nil
  | cons part rest ih =>
    obtain ⟨hpart, hrest⟩ := List.forall_mem_cons.1 h
    rw [List.flatMap_cons]
    exact hpart.append (ih hrest)

/-- Events without a start of an evaluation are paced if no test case is done. -/
theorem isPaced_of_idle (hstarted : ∀ e ∈ events, e.started? = none)
    (hdone : ∀ a, ∀ e ∈ events, e.completes a = false) : IsPaced events where
  isBounded a total own hown _ := by
    have hstart := hstarted _ (hown.subset List.mem_cons_self)
    cases hstart
  isLed a own hown _ := List.countP_eq_zero.2 fun e he =>
    Bool.eq_false_iff.1 (hdone a e (hown.subset he))

theorem started?_of_isWithin {name : Text} {e : EvaluationEvent R} (h : e.isWithin name = true) :
    e.started? = none := by
  cases e with
  | evaluationStarted => cases h
  | _ => rfl

theorem eq_of_completes {name a : Text} {e : EvaluationEvent R} (h : e.isWithin name = true)
    (hdone : e.completes a = true) : name = a := by
  cases e with
  | caseCompleted => exact (of_decide_eq_true h).symm.trans (of_decide_eq_true hdone)
  | _ => cases hdone

end EvaluationEvent

open EvaluationEvent

/-- What is told of an evaluation is paced. -/
theorem LogEntry.IsRun.isPaced {A α : Type} [Approach A] {name : Text} {r : Registration A}
    {cases : List TestCase} {options : Options} {start : Except Failure Unit}
    {outcome : Except Halt α} {entries : List (LogEntry R)}
    (h : IsRun name r cases options start outcome entries) : IsPaced (told entries) := by
  obtain ⟨rest, rfl, hrest⟩ := h.exists_rest
  have hstarted : ∀ e ∈ told rest, e.started? = none := fun e he =>
    started?_of_isWithin (hrest.told e he)
  rw [told_cons_event]
  constructor
  · intro a total own hown hnone
    rcases List.infix_cons_iff.1 hown with hown | hown
    · obtain ⟨hstart, hinitial⟩ := List.cons_prefix_cons.1 hown
      obtain ⟨rfl, rfl⟩ := evaluationStarted.inj hstart
      exact Nat.le_trans hinitial.sublist.countP_le hrest.done
    · -- The rest has no start of its own.
      have hstart := hstarted _ (hown.subset List.mem_cons_self)
      cases hstart
  · intro a own hown hnone
    rcases List.prefix_cons_iff.1 hown with rfl | ⟨own, rfl, hinitial⟩
    · rfl
    · obtain ⟨hname, -⟩ := List.forall_mem_cons.1 hnone
      refine List.countP_eq_zero.2 fun e he hdone => ?_
      rcases List.mem_cons.1 he with rfl | he
      · cases hdone
      · exact hname (congrArg some (eq_of_completes (hrest.told e (hinitial.subset he)) hdone))

/-! ### Streams of benches -/

/-- A record that has more paced events than another one. -/
def LogEntry.IsPacedSince (log log' : List (LogEntry R)) : Prop :=
  ∃ events, told log' = told log ++ events ∧ IsPaced events

theorem LogEntry.IsPacedSince.append {log log' more : List (LogEntry R)}
    (h : IsPacedSince log log') (hmore : IsPaced (told more)) :
    IsPacedSince log (log' ++ more) := by
  obtain ⟨events, htold, hevents⟩ := h
  refine ⟨events ++ told more, ?_, hevents.append hmore⟩
  rw [told_append, htold, List.append_assoc]

section Benches

variable {A : Type} [Quantity R] [Approach A] {log : List (LogEntry R)} {world : World R}

theorem Bench.isPacedSince_evaluate (h : LogEntry.IsPacedSince log world.log) (bench : Bench A)
    (name : Text) (cases : List TestCase) (options : Options) :
    LogEntry.IsPacedSince log (bench.evaluate world name cases options).world.log := by
  cases hfind : bench.find? name with
  | none =>
    rw [evaluate_of_not_registered hfind]
    exact h
  | some r =>
    obtain ⟨run, hrun, hlog, -⟩ := exists_run hfind world cases options
    rw [hlog]
    exact h.append hrun.isPaced

/-- A report of a failure starts and completes nothing. -/
theorem Bench.isPacedSince_evaluateAll (h : LogEntry.IsPacedSince log world.log) (bench : Bench A)
    (cases : List TestCase) (optionsOf : Text → Options) :
    LogEntry.IsPacedSince log (bench.evaluateAll world cases optionsOf).world.log := by
  refine evaluateNames_keeps (P := fun _ world => LogEntry.IsPacedSince log world.log)
    (fun bench world name h => isPacedSince_evaluate h bench name cases _) ?_ bench.names h
  intro _ world name reason h
  exact h.append (isPaced_of_idle (List.forall_mem_singleton.2 rfl)
    fun _ => List.forall_mem_singleton.2 rfl)

end Benches

namespace BenchCall

variable {A : Type} [Quantity R] [Approach A]

/-- A call of a bench adds paced events to those that were told. -/
theorem isPacedSince_perform (state : Bench A × World R) (call : BenchCall A) :
    LogEntry.IsPacedSince state.2.log (perform state call).2.log := by
  have hstart : LogEntry.IsPacedSince state.2.log state.2.log :=
    ⟨[], (List.append_nil _).symm, isPaced_nil⟩
  cases call with
  | register approach =>
    exact hstart.append (isPaced_of_idle (List.forall_mem_singleton.2 rfl)
      fun _ => List.forall_mem_singleton.2 rfl)
  | evaluate name cases options => exact Bench.isPacedSince_evaluate hstart ..
  | evaluateAll cases optionsOf => exact Bench.isPacedSince_evaluateAll hstart ..

/-- The events that are told during a call of a bench. -/
def stream (state : Bench A × World R) (call : BenchCall A) : List (EvaluationEvent R) :=
  (LogEntry.told (perform state call).2.log).drop (LogEntry.told state.2.log).length

theorem isPaced_stream (state : Bench A × World R) (call : BenchCall A) :
    IsPaced (stream state call) := by
  obtain ⟨events, htold, hevents⟩ := isPacedSince_perform state call
  rw [stream, htold, List.drop_left]
  exact hevents

end BenchCall

/-! ### Rows within their totals -/

namespace Progress

variable {isDisabled isColoured : Bool}

/-- After bounded events no row counts beyond its total. -/
theorem Follows.completed_le_total {events : List (EvaluationEvent Binary64)} {p : Progress Nat}
    (h : Follows isColoured events p) (hbounded : IsBounded events) {row : ProgressRow Nat}
    (hrow : row ∈ p.rows) : row.completed ≤ row.total := by
  obtain ⟨index, hindex⟩ := List.mem_iff_getElem?.1 hrow
  have hinside := (List.getElem?_eq_some_iff.1 hindex).1
  rw [h.length_rows] at hinside
  obtain ⟨before, a, total, tail, hsplit, rfl⟩ := exists_start hinside
  -- What counts in the row are the events up to the next start of its approach.
  let own := tail.takeWhile fun e => decide (e.started? ≠ some a)
  have hown : .evaluationStarted a total :: own <+: .evaluationStarted a total :: tail :=
    List.cons_prefix_cons.2 ⟨rfl, List.takeWhile_prefix _⟩
  have hinfix : .evaluationStarted a total :: own <:+: events := by
    rw [hsplit]
    exact hown.isInfix.trans (List.suffix_append ..).isInfix
  have hnone : ∀ e ∈ own, e.started? ≠ some a := by
    intro e he
    have hkept := List.mem_takeWhile_imp he
    exact of_decide_eq_true hkept
  obtain rfl := Option.some.inj (hindex.symm.trans (h.row_eq hsplit))
  exact (Nat.zero_add _).trans_le (hbounded a total own hinfix hnone)

/-- The latest row of an approach counts as many test cases as the observer. -/
theorem Follows.completedFor_eq {events : List (EvaluationEvent Binary64)} {p : Progress Nat}
    (h : Follows isColoured events p) {before : List (EvaluationEvent Binary64)} {a : Text}
    {total : Nat} {tail : List (EvaluationEvent Binary64)}
    (hsplit : events = before ++ .evaluationStarted a total :: tail)
    (hlatest : ∀ e ∈ tail, e.started? ≠ some a) :
    p.completedFor (.text a) = tail.countP (·.completes a) := by
  rw [completedFor, (h.owns before a total tail hsplit hlatest).count, Option.getD_some]
  exact Nat.zero_add _

/-- **Counts and rows after any calls.** The count of an approach is zero if it was never started,
and else the number of its test cases that are done since its last start, whether rows are shown or
not, wherever the observer is stopped and whatever becomes of the rows; an approach with a row has a
count. All calls are taken if and only if nothing is shown or all rows fit. If they are taken there
is one row for each start since the last stop, in order, with the total of the start, which counts
the test cases that are done and has the last status that is told up to the next start of its
approach, so nothing later changes it; the latest row of an approach counts as the observer does. No
row counts beyond its total if the events are those of any calls of benches. -/
theorem rows_of_calls {A : Type} [Approach A] (isDisabled isColoured : Bool)
    (calls : List ProgressCall) :
    let p := after isDisabled isColoured calls
    (∀ a, (∀ c ∈ calls, c.started? ≠ some a) → p.completedFor (.text a) = 0) ∧
    (∀ before start later a, calls = before ++ start :: later → start.started? = some a →
      (∀ c ∈ later, c.started? ≠ some a) →
      p.completedFor (.text a) = later.countP (·.completes a)) ∧
    p.Keyed ∧
    (AtEach (fun before c => (after isDisabled isColoured before).Takes c) calls ↔
      isDisabled = true ∨ AtEach (Fits isColoured) calls) ∧
    (isDisabled = true → p.rows = []) ∧
    (isDisabled = false → AtEach (Fits isColoured) calls →
      p.rows.length = ((recent calls).filterMap EvaluationEvent.started?).length ∧
      (∀ before a total tail, recent calls = before ++ .evaluationStarted a total :: tail →
        p.rows[(before.filterMap EvaluationEvent.started?).length]? =
          some (ProgressRow.after a ⟨labelAfter isColoured before a, total, 0, []⟩
            (tail.takeWhile fun e => e.started? ≠ some a)) ∧
        ((∀ e ∈ tail, e.started? ≠ some a) →
          tail.countP (·.completes a) = p.completedFor (.text a))) ∧
      ∀ runs : List ((Bench A × World Binary64) × BenchCall A),
        (calls.filterMap ProgressCall.event? =
          runs.flatMap fun run => BenchCall.stream run.1 run.2) →
        ∀ row ∈ p.rows, row.completed ≤ row.total) := by
  refine ⟨fun a hnone => ?_, fun before start later a hsplit hstart hlater => ?_,
    keyed_after isDisabled isColoured calls, takes_all_iff isDisabled isColoured calls, ?_, ?_⟩
  · rw [completedFor, find?_counts_after_of_not_started hnone, Option.getD_none]
  · rw [hsplit, completedFor, find?_counts_after hstart hlater, Option.getD_some]
  · rintro rfl
    exact rows_after_of_isDisabled isColoured calls
  · rintro rfl hfits
    have hfollows := follows_after ((takes_all_iff false isColoured calls).2 (.inr hfits))
    refine ⟨hfollows.length_rows, fun before a total tail hsplit => ⟨hfollows.row_eq hsplit,
      fun hlatest => (hfollows.completedFor_eq hsplit hlatest).symm⟩, ?_⟩
    intro runs hruns row hrow
    have hpaced : IsPaced (calls.filterMap ProgressCall.event?) := by
      rw [hruns]
      exact isPaced_flatMap fun run _ => BenchCall.isPaced_stream run.1 run.2
    exact hfollows.completed_le_total (hpaced.isBounded.of_infix (recent_suffix calls).isInfix) hrow

open Bench in
/-- An evaluation that ends well, twice, and one that fails. -/
def retries : List ((Bench Script × World Binary64) × BenchCall Script) :=
  [((obligingBench, forgetfulWorld), .evaluate obliging.name oneCase []),
    ((obligingBench, forgetfulWorld), .evaluate obliging.name oneCase []),
    ((obligingBench, stoppedWorld), .evaluateAll oneCase fun _ => [])]

open Bench in
/-- The events of the evaluation that ends well. -/
def doneEvents : List (EvaluationEvent Binary64) :=
  [.evaluationStarted obliging.name 1,
    .caseStarted obliging.name (Text.ofString "c1") (Text.ofString "case c1"),
    .caseCompleted obliging.name (Text.ofString "c1") 0,
    .evaluationCompleted obliging.name (Binary64.ofInt 0) 0 0 (Binary64.ofInt 2)]

open Bench in
/-- The events of the evaluation that fails. -/
def stoppedEvents : List (EvaluationEvent Binary64) :=
  [.evaluationStarted obliging.name 1,
    .caseStarted obliging.name (Text.ofString "c1") (Text.ofString "case c1"),
    .evaluationFailed obliging.name (Text.ofString "stopped")]

/-- The calls of an observer of these evaluations that is stopped after the first one. -/
def retryCalls : List ProgressCall :=
  doneEvents.map .event ++ .stop :: (doneEvents ++ stoppedEvents).map .event

/-- The row of the evaluation that ended well after the stop stands as it was when the approach was
started again. -/
theorem rows_of_calls_retries :
    let p := after false false retryCalls
    AtEach (fun before c => (after false false before).Takes c) retryCalls ∧
      p.completedFor (.text Bench.obliging.name) = 0 ∧
      p.rows.length = 2 ∧
      p.rows[0]? = some ⟨.text Bench.obliging.name, 1, 1, "accuracy 0.00%"⟩ ∧
      p.rows[1]? = some ⟨.text Bench.obliging.name, 1, 0, failedStatus⟩ ∧
      ∀ row ∈ p.rows, row.completed ≤ row.total := by
  obtain ⟨-, hcount, -, htakes, -, hrows⟩ :=
    rows_of_calls (A := Script) false false retryCalls
  have hfits : AtEach (Fits false) retryCalls := by
    intro before c later hsplit
    have hmem : c ∈ retryCalls := hsplit ▸ List.mem_append_right before List.mem_cons_self
    have hstarts : ∀ c ∈ retryCalls, c.started? = none ∨
        c = .event (.evaluationStarted Bench.obliging.name 1) := by decide
    rcases hstarts c hmem with hnone | rfl
    · exact fits_of_not_started false before hnone
    · have hlabel : Markup.Tag.fault? Bench.obliging.name = none := by decide +kernel
      have hfinite : (totalNumber 1).isFinite = true := by decide +kernel
      exact ⟨hlabel, hfinite⟩
  obtain ⟨hlength, hrow, hbound⟩ := hrows rfl hfits
  have hevents : retryCalls.filterMap ProgressCall.event? =
      retries.flatMap fun run => BenchCall.stream run.1 run.2 := by decide +kernel
  refine ⟨htakes.2 (.inr hfits), ?_, hlength, ?_, ?_, hbound retries hevents⟩
  · exact hcount (doneEvents.map .event ++ .stop :: doneEvents.map .event) _ _ _ rfl rfl (by decide)
  · have hstatus : accuracyStatus (Binary64.ofInt 0) = "accuracy 0.00%" := by decide +kernel
    exact hstatus ▸ (hrow [] _ _ (doneEvents.tail ++ stoppedEvents) rfl).1
  · exact (hrow doneEvents _ _ stoppedEvents.tail rfl).1

/-- The start of an approach whose name closes a tag that is not open is not taken. -/
theorem not_takes_misfit :
    ¬AtEach (fun before c => (after false false before).Takes c)
      [.event (.evaluationStarted "[/x]" 1)] := by
  intro h
  have htakes := h [] _ [] rfl
  have hfault : (observe (start false false) (.evaluationStarted "[/x]" 1)).2 ≠ none := by
    decide +kernel
  exact hfault ((takes_event_iff _ _).1 htakes).1

end Progress

end TypeBench
