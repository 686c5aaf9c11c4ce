import TypeBench.Proofs.Evaluation.Uninterrupted

/-!
# Disposal of approaches

An evaluation disposes of its approach when the run has come to a result or to a failure, and at no
other time: an interrupt leaves the approach as it is. Observers may fail here, and interrupts may
arrive anywhere. What every step of a run keeps the run keeps, which is used twice: no step disposes
of the approach, and no step is interrupted where no interrupt arrives.

## Main definitions

* `LogEntry.disposals`: how often an approach is disposed of in a record.
* `Session.Kept`, `Session.Keeps`: what a result has, and what a computation keeps.
* `Session.StepInvariant`, `Session.CaseInvariant`, `Session.RunInvariant`: what all steps of the
  test cases and of a run keep.
* `Session.isInterrupted`: whether an interrupt ends the run.
* `Session.Disposed`: how often the approach was disposed of since a record.

## Main results

* `Session.StepInvariant.evaluate`, `Session.RunInvariant.scored`: what all steps keep the
  evaluation and its run keep.
* `Session.isInterrupted_eq_false`: where no interrupt arrives none ends the run.
* `Session.scored_disposed`: a run never disposes of the approach.
* `Session.scoredAndDisposed_disposed`: an approach is disposed of once, unless an interrupt ends
  the run.
* `Bench.evaluate_disposes_iff`: the same of the evaluation of a registered approach.
-/

namespace TypeBench

/-! ### Disposals in records -/

/-- Whether a call disposes of the approach. -/
def Call.isDispose : Call → Bool
  | .dispose => true
  | _ => false

namespace LogEntry

variable {R : Type}

/-- How often the approach of a number is disposed of in a record. -/
def disposals (number : Nat) (log : List (LogEntry R)) : Nat :=
  (calls log).countP fun call => call.1 = number && call.2.isDispose

@[simp] theorem disposals_append (number : Nat) (log more : List (LogEntry R)) :
    disposals number (log ++ more) = disposals number log + disposals number more := by
  rw [disposals, calls_append, List.countP_append]
  rfl

@[simp] theorem disposals_event (number : Nat) (e : EvaluationEvent R) :
    disposals number [.event e] = 0 := rfl

@[simp] theorem disposals_ofCall (number : Nat) (c : Call) (events : List ApproachEvent) :
    disposals (R := R) number (ofCall number c events) = if c.isDispose then 1 else 0 := by
  rw [disposals, calls_ofCall]
  cases h : c.isDispose <;> simp [h]

end LogEntry

/-! ### Invariants of runs -/

/-- The approach whose evaluation an event tells to be started. -/
def EvaluationEvent.started? {R : Type} : EvaluationEvent R → Option Text
  | .evaluationStarted approach _ => some approach
  | _ => none

namespace Session

variable {R A α β : Type}

/-- The session that a computation leaves. -/
def left : EStateM.Result Halt (Session R A) α → Session R A
  | .ok _ s => s
  | .error _ s => s

/-- A result has an invariant of sessions, and is no early end but in certain ways. -/
def Kept (inv : Session R A → Prop) (ends : Halt → Prop) :
    EStateM.Result Halt (Session R A) α → Prop
  | .ok _ s => inv s
  | .error halt s => inv s ∧ ends halt

/-- A computation keeps an invariant of sessions, and ends early in certain ways only. -/
def Keeps (inv : Session R A → Prop) (ends : Halt → Prop) (x : Action R A α) : Prop :=
  ∀ s, inv s → Kept inv ends (x s)

section Keeps

variable {inv : Session R A → Prop} {ends : Halt → Prop}

theorem Kept.left {r : EStateM.Result Halt (Session R A) α} (h : Kept inv ends r) :
    inv (left r) := by
  cases r with
  | ok a s => exact h
  | error halt s => exact h.1

theorem kept_of_left {r : EStateM.Result Halt (Session R A) α} (h : inv (Session.left r)) :
    Kept inv (fun _ => True) r := by
  cases r with
  | ok a s => exact h
  | error halt s => exact ⟨h, trivial⟩

theorem Keeps.left {x : Action R A α} (h : Keeps inv ends x) {s : Session R A} (hs : inv s) :
    inv (left (x s)) := (h s hs).left

theorem Keeps.pure (a : α) : Keeps inv ends (pure a : Action R A α) := fun _ hs => hs

theorem Keeps.throw {halt : Halt} (h : ends halt) :
    Keeps inv ends (throw halt : Action R A α) := fun _ hs => ⟨hs, h⟩

theorem Keeps.bind {x : Action R A α} {f : α → Action R A β} (hx : Keeps inv ends x)
    (hf : ∀ a, Keeps inv ends (f a)) : Keeps inv ends (x >>= f) := by
  intro s hs
  have h := hx s hs
  cases hrun : x s with
  | ok a s' =>
    rw [hrun] at h
    rw [bind_of_ok hrun]
    exact hf a s' h
  | error halt s' =>
    rw [hrun] at h
    rw [bind_of_error hrun]
    exact h

/-- A call keeps what the session after it has, and ends early as the reply does. -/
theorem Keeps.call {c : Call} {answer : A → Reply A α}
    (h : ∀ s, inv s → inv (s.afterCall c (answer s.registration.approach)) ∧
      ∀ halt, (answer s.registration.approach).outcome = .error halt → ends halt) :
    Keeps inv ends (call c answer) := by
  intro s hs
  obtain ⟨hafter, hends⟩ := h s hs
  cases houtcome : (answer s.registration.approach).outcome with
  | ok result =>
    rw [call_of_ok houtcome]
    exact hafter
  | error halt =>
    rw [call_of_error houtcome]
    exact ⟨hafter, hends halt houtcome⟩

/-- Telling keeps what the session with the event has, and ends early as the observer fails. -/
theorem Keeps.tell_of {e : EvaluationEvent R}
    (h : ∀ s, inv s → inv (s.record e) ∧
      ∀ failure, s.observer (LogEntry.told s.log) e = .error failure → ends (.failed failure)) :
    Keeps inv ends (tell e) := by
  intro s hs
  obtain ⟨hrecord, hends⟩ := h s hs
  rw [Session.tell]
  cases hobserver : s.observer (LogEntry.told s.log) e with
  | ok _ => exact hrecord
  | error failure => exact ⟨hrecord, hends failure hobserver⟩

/-- Telling keeps what the session with the event has. -/
theorem Keeps.tell (hfailed : ∀ failure, ends (.failed failure)) {e : EvaluationEvent R}
    (h : ∀ s, inv s → inv (s.record e)) : Keeps inv ends (tell e) :=
  .tell_of fun s hs => ⟨h s hs, fun failure _ => hfailed failure⟩

/-- Reading the clock keeps what the session with the later clock has. -/
theorem Keeps.readClock (h : ∀ s, inv s → inv { s with clock := s.clock.read.2 } ∧
    ∀ halt, s.clock.read.1 = .error halt → ends halt) : Keeps inv ends readClock := by
  intro s hs
  obtain ⟨hafter, hends⟩ := h s hs
  rw [Session.readClock]
  rcases hread : s.clock.read with ⟨halt | time, clock⟩
  · rw [hread] at hafter hends
    exact ⟨hafter, hends halt rfl⟩
  · rw [hread] at hafter
    exact hafter

end Keeps

/-- The run of an approach that is set up: the test cases, and their score. -/
def predictAndScore [Quantity R] [Approach A] (policy : ScoringPolicy) (name : Text)
    (cases : List TestCase) : Action R A (EvaluationResult R) := do
  let t ← runCases name cases CaseTally.empty
  match t.matching.result policy name t.predictions t.truths t.time with
  | .ok result => return result
  | .error report => throw (.failed (.report report))

theorem scored_eq [Quantity R] [Approach A] (policy : ScoringPolicy) (name : Text)
    (cases : List TestCase) (options : Options) :
    scored (R := R) (A := A) policy name cases options =
      (configure options >>= fun _ => predictAndScore policy name cases) := rfl

/-- What every step of the test cases of a name keeps, and ways to end early that are closed under
the failures of these steps. -/
structure StepInvariant [Approach A] (name : Text) (inv : Session R A → Prop)
    (ends : Halt → Prop) : Prop where
  tell : ∀ e : EvaluationEvent R, e.started? = none → Keeps inv ends (tell e)
  readClock : Keeps inv ends readClock
  call : ∀ source file,
    Keeps inv ends (call (.predict source file) (Approach.predict source file))
  range : ∀ fault, ends (.failed (.range fault))
  undisposed : ∀ failure, ends (.failed failure) →
    ends (.failed (.bench (.undisposed name failure.message)))

namespace StepInvariant

variable [Approach A] {name : Text} {inv : Session R A → Prop} {ends : Halt → Prop}
  (h : StepInvariant name inv ends)
include h

/-- What the steps keep is kept from the disposal on, after a result. -/
theorem complete {s : Session R A} (hdispose : Kept inv ends (dispose s))
    (result : EvaluationResult R) : Kept inv ends (complete name result s) := by
  rw [Session.complete]
  rcases hrun : dispose s with ⟨_, s'⟩ | ⟨failure | _, s'⟩
  · rw [hrun] at hdispose
    have hannounce : Keeps inv ends (announce (R := R) (A := A) name result) :=
      (h.tell _ rfl).bind fun _ => .pure result
    exact hannounce s' hdispose
  · rw [hrun] at hdispose
    exact ⟨hdispose.1, h.undisposed failure hdispose.2⟩
  · rw [hrun] at hdispose
    exact hdispose

/-- What the steps keep is kept from the disposal on, after a failure. -/
theorem disposeAfter {s : Session R A} (hdispose : Kept inv ends (dispose s)) {α : Type}
    {failure : Failure} (hfailure : ends (.failed failure)) :
    Kept inv ends (disposeAfter (α := α) name failure s) := by
  rw [Session.disposeAfter]
  rcases hrun : dispose s with ⟨_, s'⟩ | ⟨second | _, s'⟩
  · rw [hrun] at hdispose
    exact ⟨hdispose, hfailure⟩
  · rw [hrun] at hdispose
    have htold := h.tell (.disposeFailed name second.message) rfl s' hdispose.1
    dsimp only
    split
    · rename_i heq
      rw [heq] at htold
      exact ⟨htold, hfailure⟩
    · rename_i heq
      rw [heq] at htold
      exact htold
  · rw [hrun] at hdispose
    exact hdispose

variable [Quantity R]

theorem predict (case : TestCase) : Keeps inv ends (predict case) := by
  refine h.readClock.bind fun started => (h.call _ _).bind fun predictions =>
    h.readClock.bind fun stopped => ?_
  cases Clock.elapsed started stopped with
  | ok time => exact .pure _
  | error fault => exact .throw (h.range fault)

theorem runCases (cases : List TestCase) (t : CaseTally R) :
    Keeps inv ends (runCases name cases t) := by
  induction cases generalizing t with
  | nil => exact .pure t
  | cons case rest ih =>
    exact (h.tell _ rfl).bind fun _ => (h.predict case).bind fun _ =>
      (h.tell _ rfl).bind fun _ => ih _

theorem predictAndScore {policy : ScoringPolicy}
    (hreport : ∀ (t : CaseTally R) report,
      t.matching.result policy name t.predictions t.truths t.time = .error report →
      ends (.failed (.report report)))
    (cases : List TestCase) : Keeps inv ends (predictAndScore policy name cases) := by
  refine (h.runCases cases _).bind fun t => ?_
  cases hresult : t.matching.result policy name t.predictions t.truths t.time with
  | ok result => exact .pure result
  | error report => exact .throw (hreport t report hresult)

/-- What every step keeps the evaluation keeps from its start on. -/
theorem evaluate {policy : ScoringPolicy}
    (hreport : ∀ (t : CaseTally R) report,
      t.matching.result policy name t.predictions t.truths t.time = .error report →
      ends (.failed (.report report)))
    {options : Options} (hconfigure : Keeps inv ends (configure options))
    (hdispose : Keeps inv ends dispose) {cases : List TestCase} {s : Session R A}
    (hstart : Kept inv ends (Session.tell (.evaluationStarted name cases.length) s)) :
    Kept inv ends (evaluate policy name cases options s) := by
  have hrun : Keeps inv ends (scoredAndDisposed policy name cases options) := by
    intro s hs
    have hscored : Kept inv ends (scored policy name cases options s) := by
      rw [scored_eq]
      exact (hconfigure.bind fun _ => h.predictAndScore hreport cases) s hs
    rw [scoredAndDisposed]
    rcases hrun : scored policy name cases options s with ⟨result, s'⟩ | ⟨failure | _, s'⟩
    · rw [hrun] at hscored
      exact h.complete (hdispose s' hscored) result
    · rw [hrun] at hscored
      exact h.disposeAfter (hdispose s' hscored.1) hscored.2
    · rw [hrun] at hscored
      exact hscored
  rw [Session.evaluate]
  cases htell : Session.tell (.evaluationStarted name cases.length) s with
  | ok _ s' =>
    rw [htell] at hstart
    rw [bind_of_ok htell]
    exact hrun s' hstart
  | error halt s' =>
    rw [htell] at hstart
    rw [bind_of_error htell]
    exact hstart

end StepInvariant

/-- What every step of the test cases keeps. -/
structure CaseInvariant [Approach A] (inv : Session R A → Prop) (ends : Halt → Prop) : Prop where
  failed : ∀ failure, ends (.failed failure)
  tell : ∀ e, Keeps inv ends (tell e)
  readClock : Keeps inv ends readClock
  call : ∀ source file,
    Keeps inv ends (call (.predict source file) (Approach.predict source file))

/-- What every step of a run keeps. -/
structure RunInvariant [Approach A] (inv : Session R A → Prop) (ends : Halt → Prop) : Prop
    extends CaseInvariant inv ends where
  configure : ∀ options, Keeps inv ends (configure options)

namespace CaseInvariant

variable [Approach A] {inv : Session R A → Prop} {ends : Halt → Prop}
  (h : CaseInvariant inv ends)
include h

/-- Where every failure may end a step, the name makes no difference. -/
theorem step (name : Text) : StepInvariant name inv ends where
  tell e _ := h.tell e
  readClock := h.readClock
  call := h.call
  range _ := h.failed _
  undisposed _ _ := h.failed _

/-- What telling keeps is kept from the disposal on, after a result. -/
theorem complete {s : Session R A} (hdispose : Kept inv ends (dispose s)) (name : Text)
    (result : EvaluationResult R) : Kept inv ends (complete name result s) :=
  (h.step name).complete hdispose result

/-- What telling keeps is kept from the disposal on, after a failure. -/
theorem disposeAfter {s : Session R A} (hdispose : Kept inv ends (dispose s)) {α : Type}
    (name : Text) (failure : Failure) :
    Kept inv ends (disposeAfter (α := α) name failure s) :=
  (h.step name).disposeAfter hdispose (h.failed failure)

variable [Quantity R]

theorem predictAndScore (policy : ScoringPolicy) (name : Text) (cases : List TestCase) :
    Keeps inv ends (predictAndScore policy name cases) :=
  (h.step name).predictAndScore (fun _ _ _ => h.failed _) cases

/-- What every step keeps the evaluation keeps. -/
theorem evaluate {options : Options} (hconfigure : Keeps inv ends (configure options))
    (hdispose : Keeps inv ends dispose) (policy : ScoringPolicy) (name : Text)
    (cases : List TestCase) : Keeps inv ends (evaluate policy name cases options) :=
  fun s hs => (h.step name).evaluate (fun _ _ _ => h.failed _) hconfigure hdispose (h.tell _ s hs)

end CaseInvariant

/-- What every step keeps the run keeps. -/
theorem RunInvariant.scored [Quantity R] [Approach A] {inv : Session R A → Prop}
    {ends : Halt → Prop} (h : RunInvariant inv ends) (policy : ScoringPolicy) (name : Text)
    (cases : List TestCase) (options : Options) :
    Keeps inv ends (scored policy name cases options) := by
  rw [scored_eq]
  exact (h.configure options).bind fun _ => h.predictAndScore policy name cases

/-! ### Runs without interrupts -/

/-- Where no interrupt arrives no step is interrupted, and none arrives afterwards. -/
theorem runInvariant_neverInterrupts [Approach A] :
    RunInvariant (R := R) (A := A)
      (fun s => Approach.NeverInterrupts s.registration.approach ∧ s.clock.NeverInterrupts)
      (· ≠ .interrupted) where
  failed _ := nofun
  tell _ := .tell (fun _ => nofun) fun _ hs => hs
  readClock := by
    refine .readClock fun s ⟨ha, hclock⟩ => ?_
    obtain ⟨hreading, hlater⟩ := hclock.read (rfl : s.clock.read = (s.clock.read.1, s.clock.read.2))
    exact ⟨⟨ha, hlater⟩, fun halt hhalt e => hreading (hhalt.trans (congrArg _ e))⟩
  configure options := by
    refine .call fun s ⟨ha, hclock⟩ => ⟨⟨ha.after (.configure options), hclock⟩, ?_⟩
    exact fun halt hhalt e => ha [] (.configure options) (hhalt.trans (congrArg _ e))
  call source file := by
    refine .call fun s ⟨ha, hclock⟩ => ⟨⟨ha.after (.predict source file), hclock⟩, ?_⟩
    exact fun halt hhalt e => ha [] (.predict source file) (hhalt.trans (congrArg _ e))

/-- Whether an interrupt ends the run of an approach. -/
def isInterrupted [Quantity R] [Approach A] (policy : ScoringPolicy) (name : Text)
    (cases : List TestCase) (options : Options) (s : Session R A) : Bool :=
  match scored policy name cases options s with
  | .error .interrupted _ => true
  | _ => false

/-- Where no interrupt arrives at a step none ends the run, whatever the observer does. -/
theorem isInterrupted_eq_false [Quantity R] [Approach A] {s : Session R A}
    (ha : Approach.NeverInterrupts s.registration.approach) (hclock : s.clock.NeverInterrupts)
    (policy : ScoringPolicy) (name : Text) (cases : List TestCase) (options : Options) :
    s.isInterrupted policy name cases options = false := by
  have hkeeps := runInvariant_neverInterrupts.scored policy name cases options s ⟨ha, hclock⟩
  rw [isInterrupted]
  split
  · rename_i heq
    rw [heq] at hkeeps
    exact absurd rfl hkeeps.2
  · rfl

/-! ### Disposal at the end of a run -/

/-- The approach of a number was disposed of so often since a record. -/
structure Disposed (times number : Nat) (log : List (LogEntry R)) (s : Session R A) : Prop where
  number_eq : s.registration.number = number
  grown : ∃ added, s.log = log ++ added ∧ LogEntry.disposals number added = times

variable {times number : Nat} {log : List (LogEntry R)} {s : Session R A}

theorem Disposed.refl (s : Session R A) : Disposed 0 s.registration.number s.log s :=
  ⟨rfl, [], (List.append_nil _).symm, rfl⟩

theorem Disposed.record (h : Disposed times number log s) (e : EvaluationEvent R) :
    Disposed times number log (s.record e) := by
  obtain ⟨hnumber, added, hlog, htimes⟩ := h
  refine ⟨hnumber, added ++ [.event e], ?_, ?_⟩
  · rw [Session.record, hlog, List.append_assoc]
  · rw [LogEntry.disposals_append, htimes, LogEntry.disposals_event, Nat.add_zero]

theorem Disposed.afterCall (h : Disposed times number log s) (c : Call) (reply : Reply A α) :
    Disposed (times + if c.isDispose then 1 else 0) number log (s.afterCall c reply) := by
  obtain ⟨hnumber, added, hlog, htimes⟩ := h
  refine ⟨hnumber, added ++ LogEntry.ofCall number c reply.events, ?_, ?_⟩
  · rw [afterCall_eq, hnumber, advance, hlog, List.append_assoc]
  · rw [LogEntry.disposals_append, LogEntry.disposals_ofCall, htimes]

/-- No step of a run disposes of the approach. -/
theorem runInvariant_disposed [Approach A] :
    RunInvariant (R := R) (A := A) (Disposed times number log) fun _ => True where
  failed _ := trivial
  tell e := .tell (fun _ => trivial) fun _ h => h.record e
  readClock := .readClock fun _ h => ⟨⟨h.number_eq, h.grown⟩, fun _ _ => trivial⟩
  configure options := .call fun _ h => ⟨h.afterCall (.configure options) _, fun _ _ => trivial⟩
  call source file := .call fun _ h => ⟨h.afterCall (.predict source file) _, fun _ _ => trivial⟩

theorem Disposed.dispose [Approach A] (h : Disposed times number log s) :
    Disposed (times + 1) number log (left (dispose s)) := by
  cases houtcome : (Approach.dispose s.registration.approach).outcome with
  | ok _ =>
    rw [Session.dispose, call_of_ok houtcome]
    exact h.afterCall .dispose _
  | error halt =>
    rw [Session.dispose, call_of_error houtcome]
    exact h.afterCall .dispose _

/-- After a result the approach is disposed of once more, whatever becomes of the result. -/
theorem Disposed.complete [Quantity R] [Approach A] (h : Disposed times number log s)
    (name : Text) (result : EvaluationResult R) :
    Disposed (times + 1) number log (left (complete name result s)) :=
  (runInvariant_disposed.complete (kept_of_left h.dispose) name result).left

/-- After a failure the approach is disposed of once more, whether or not that fails too. -/
theorem Disposed.disposeAfter [Approach A] (h : Disposed times number log s) {α : Type}
    (name : Text) (failure : Failure) :
    Disposed (times + 1) number log (left (disposeAfter (α := α) name failure s)) :=
  (runInvariant_disposed.disposeAfter (kept_of_left h.dispose) name failure).left

variable [Quantity R] [Approach A]

/-- The session after an attempt to set the approach up. -/
def configured (options : Options) (s : Session R A) : Session R A :=
  s.afterCall (.configure options) (Approach.configure options s.registration.approach)

/-- A run attempts to set the approach up first, and never disposes of it. -/
theorem scored_disposed (policy : ScoringPolicy) (name : Text) (cases : List TestCase)
    (options : Options) (s : Session R A) :
    Disposed 0 s.registration.number (s.configured options).log
      (left (scored policy name cases options s)) := by
  rw [scored_eq]
  cases houtcome : (Approach.configure options s.registration.approach).outcome with
  | ok _ =>
    have hconfigure : configure options s = .ok () (s.configured options) := call_of_ok houtcome
    rw [bind_of_ok hconfigure]
    exact (runInvariant_disposed.predictAndScore policy name cases).left
      (Disposed.refl (s.configured options))
  | error halt =>
    have hconfigure : configure options s = .error halt (s.configured options) :=
      call_of_error houtcome
    rw [bind_of_error hconfigure]
    exact Disposed.refl (s.configured options)

/-- **Disposal at the end of a run.** The approach is disposed of once, unless an interrupt ends the
run. -/
theorem scoredAndDisposed_disposed (policy : ScoringPolicy) (name : Text) (cases : List TestCase)
    (options : Options) (s : Session R A) :
    Disposed (if s.isInterrupted policy name cases options then 0 else 1) s.registration.number
      (s.configured options).log (left (scoredAndDisposed policy name cases options s)) := by
  have hscored := scored_disposed policy name cases options s
  rw [isInterrupted, scoredAndDisposed]
  rcases hrun : scored policy name cases options s with ⟨result, s'⟩ | ⟨failure | _, s'⟩
  · rw [hrun] at hscored
    exact Disposed.complete hscored name result
  · rw [hrun] at hscored
    exact Disposed.disposeAfter hscored name failure
  · rw [hrun] at hscored
    exact hscored

/-- An evaluation that fails at its start makes no call. Any other attempts to set the approach up,
and disposes of it once, unless an interrupt ends the run. -/
theorem evaluate_disposals (policy : ScoringPolicy) (name : Text) (cases : List TestCase)
    (options : Options) (s : Session R A) :
    ∃ added, (left (evaluate policy name cases options s)).log = s.log ++ added ∧
      ((s.observer (LogEntry.told s.log) (.evaluationStarted name cases.length) ≠ .ok () ∧
          LogEntry.calls added = []) ∨
        (s.observer (LogEntry.told s.log) (.evaluationStarted name cases.length) = .ok () ∧
          (s.registration.number, Call.configure options) ∈ LogEntry.calls added ∧
          LogEntry.disposals s.registration.number added =
            if (s.record (.evaluationStarted name cases.length)).isInterrupted policy name cases
              options then 0 else 1)) := by
  let start : EvaluationEvent R := .evaluationStarted name cases.length
  rw [evaluate]
  cases hobserver : s.observer (LogEntry.told s.log) start with
  | error failure =>
    have htell : tell start s = .error (.failed failure) (s.record start) := by
      rw [Session.tell, hobserver]
    have hrefused : (.error failure : Except Failure Unit) ≠ .ok () := by
      intro h
      cases h
    rw [bind_of_error htell]
    exact ⟨[.event start], rfl, .inl ⟨hrefused, rfl⟩⟩
  | ok _ =>
    have htell : tell start s = .ok () (s.record start) := by
      rw [Session.tell, hobserver]
    rw [bind_of_ok htell]
    obtain ⟨-, added, hlog, htimes⟩ :=
      scoredAndDisposed_disposed policy name cases options (s.record start)
    let setUp : List (LogEntry R) := LogEntry.ofCall s.registration.number (.configure options)
      (Approach.configure options s.registration.approach).events
    refine ⟨[.event start] ++ (setUp ++ added), ?_, .inr ⟨rfl, ?_, ?_⟩⟩
    · rw [hlog, configured, afterCall_eq, advance, Session.record, List.append_assoc,
        List.append_assoc]
    · simp [setUp]
    · have hsetUp : LogEntry.disposals s.registration.number setUp = 0 :=
        LogEntry.disposals_ofCall ..
      rw [LogEntry.disposals_append, LogEntry.disposals_append, LogEntry.disposals_event, hsetUp,
        Nat.zero_add, Nat.zero_add]
      exact htimes

end Session

/-! ### Evaluations -/

namespace Bench

variable {R A : Type}

theorem log_turnOf (bench : Bench A) (name : Text) {α : Type}
    (result : EStateM.Result Halt (Session R A) α) :
    (bench.turnOf name result).world.log = (Session.left result).log := by
  cases result <;> rfl

/-- The session in which a registered approach is run: the observer has been told of the start. -/
def runOf (registration : Registration A) (world : World R) (name : Text)
    (cases : List TestCase) : Session R A :=
  Session.record ⟨registration, world.clock, world.observer, world.log⟩
    (.evaluationStarted name cases.length)

variable [Quantity R] [Approach A] {bench : Bench A} {name : Text} {registration : Registration A}

/-- **Disposal in an evaluation.** An evaluation attempts to set its approach up if and only if the
observer takes the start. It never disposes of the approach twice, and once it attempted to set it
up, it disposes of it if and only if no interrupt ends the run. None does where none arrives. -/
theorem evaluate_disposes_iff (hfind : bench.find? name = some registration) (world : World R)
    (cases : List TestCase) (options : Options) :
    ∃ added, (bench.evaluate world name cases options).world.log = world.log ++ added ∧
      ((∃ given, (registration.number, Call.configure given) ∈ LogEntry.calls added) ↔
        world.tell (.evaluationStarted name cases.length) = .ok ()) ∧
      LogEntry.disposals registration.number added ≤ 1 ∧
      ((∃ given, (registration.number, Call.configure given) ∈ LogEntry.calls added) →
        (LogEntry.disposals registration.number added = 1 ↔
          (runOf registration world name cases).isInterrupted bench.policy name cases options =
            false)) ∧
      (Approach.NeverInterrupts registration.approach → world.clock.NeverInterrupts →
        (runOf registration world name cases).isInterrupted bench.policy name cases options =
          false) := by
  obtain ⟨added, hlog, hcalls⟩ :=
    Session.evaluate_disposals bench.policy name cases options
      ⟨registration, world.clock, world.observer, world.log⟩
  have hworld : (bench.evaluate world name cases options).world.log = world.log ++ added := by
    rw [evaluate, hfind]
    exact (log_turnOf ..).trans hlog
  have hnever (ha : Approach.NeverInterrupts registration.approach)
      (hclock : world.clock.NeverInterrupts) :
      (runOf registration world name cases).isInterrupted bench.policy name cases options =
        false :=
    Session.isInterrupted_eq_false ha hclock ..
  rcases hcalls with ⟨hrefused, hnone⟩ | ⟨htold, hsetUp, hdisposals⟩
  · have hunset : ¬∃ given, (registration.number, Call.configure given) ∈ LogEntry.calls added := by
      rintro ⟨given, hgiven⟩
      rw [hnone] at hgiven
      cases hgiven
    have hzero : LogEntry.disposals registration.number added = 0 := by
      rw [LogEntry.disposals, hnone]
      rfl
    exact ⟨added, hworld, iff_of_false hunset hrefused, by omega,
      fun h => absurd h hunset, hnever⟩
  · have hdisposals' : LogEntry.disposals registration.number added =
        if (runOf registration world name cases).isInterrupted bench.policy name cases options
        then 0 else 1 := hdisposals
    refine ⟨added, hworld, iff_of_true ⟨options, hsetUp⟩ htold, ?_, fun _ => ?_, hnever⟩
    · rw [hdisposals']
      split <;> omega
    · rw [hdisposals']
      cases (runOf registration world name cases).isInterrupted bench.policy name cases options <;>
        decide

/-- An approach that answers every call and finds nothing. -/
def obliging : Script where
  name := Text.ofString "obliging"
  ready := .ok ()
  predictions _ _ := .ok []
  done := .ok ()

/-- A bench with this approach only. -/
def obligingBench : Bench Script := (Bench.empty .lenient).add obliging

/-- One test case without ground truth. -/
def oneCase : List TestCase :=
  [⟨Text.ofString "c1", Text.ofString "case c1", Text.ofString "const a = 1;", [], none⟩]

/-- A world whose clock fails at its first reading. -/
def stoppedWorld : World Binary64 :=
  ⟨.ofReadings [.failure (Text.ofString "stopped")], .silent, []⟩

/-- A world in which an interrupt arrives at the first reading of the clock. -/
def interruptedWorld : World Binary64 := ⟨.ofReadings [.interrupt], .silent, []⟩

/-- An evaluation that fails at the first reading of its clock disposes of the approach. -/
theorem evaluate_disposes_iff_stopped :
    ∃ added, (obligingBench.evaluate stoppedWorld obliging.name oneCase []).world.log =
        [] ++ added ∧
      (0, Call.configure []) ∈ LogEntry.calls added ∧ LogEntry.disposals 0 added = 1 := by
  have hfind : obligingBench.find? obliging.name = some ⟨0, obliging⟩ := rfl
  obtain ⟨added, hlog, -, -, hdisposes, hnever⟩ :=
    evaluate_disposes_iff hfind stoppedWorld oneCase []
  have hconfigure : (0, Call.configure []) ∈ LogEntry.calls added := by
    have hadded : _ = added := hlog
    rw [← hadded]
    exact List.mem_cons_self
  have hclock : stoppedWorld.clock.NeverInterrupts := by
    simp [Clock.NeverInterrupts, stoppedWorld, Clock.ofReadings]
  exact ⟨added, hlog, hconfigure,
    (hdisposes ⟨[], hconfigure⟩).2 (hnever obliging.neverInterrupts hclock)⟩

/-- An evaluation that is interrupted at the first reading of its clock leaves the approach set up.
-/
theorem evaluate_interrupted_undisposed :
    LogEntry.calls
        (obligingBench.evaluate interruptedWorld obliging.name oneCase []).world.log =
      [(0, .configure [])] ∧
    LogEntry.disposals 0
        (obligingBench.evaluate interruptedWorld obliging.name oneCase []).world.log = 0 :=
  ⟨rfl, rfl⟩

end Bench

end TypeBench
