import TypeBench.Proofs.Evaluation.Disposal
import TypeBench.Proofs.Evaluation.SteadyClock
import TypeBench.Proofs.Score.Acceptance

/-!
# Evaluations in lockstep

Two evaluations of approaches that cannot be told apart go the same way, step by step. Their clocks
are steady and otherwise show different times, which changes no outcome but for the times in it, as
long as no observer heeds them.

## Main definitions

* `EvaluationEvent.untimed`, `Observer.AlikeAfter`: events without times, and observers that answer
  alike where these are equal.
* `Approach.Reproduces`: approaches that answer alike once they are set up.
* `Session.Match`, `Session.Lockstep`: related sessions, and computations that keep them related.

## Main results

* `Session.Lockstep.bind`: computations in two steps stay in lockstep.
* `Session.runCases_lockstep`: so do test cases, with tallies that differ in their times alone.
* `Session.evaluate_lockstep`: so do evaluations, with results that differ in their times alone.
-/

namespace TypeBench

/-! ### Observers -/

/-- An event without times. -/
def EvaluationEvent.untimed {R : Type} [Quantity R] : EvaluationEvent R → EvaluationEvent R
  | .evaluationCompleted approach accuracy correct total _ =>
    .evaluationCompleted approach accuracy correct total Quantity.zero
  | e => e

namespace Observer

variable {R : Type} [Quantity R] {o o' : Observer R} {told told' : List (EvaluationEvent R)}

/-- Two observers answer alike, after what each was told and events that are equal but for their
times. -/
def AlikeAfter (told told' : List (EvaluationEvent R)) (o o' : Observer R) : Prop :=
  ∀ added added' e e', added.map EvaluationEvent.untimed = added'.map EvaluationEvent.untimed →
    EvaluationEvent.untimed e = EvaluationEvent.untimed e' →
      o (told ++ added) e = o' (told' ++ added') e'

theorem AlikeAfter.answer (h : AlikeAfter told told' o o') {e e' : EvaluationEvent R}
    (he : e.untimed = e'.untimed) : o told e = o' told' e' := by
  have hanswer := h [] [] e e' rfl he
  rwa [List.append_nil, List.append_nil] at hanswer

theorem AlikeAfter.tell (h : AlikeAfter told told' o o') {e e' : EvaluationEvent R}
    (he : e.untimed = e'.untimed) : AlikeAfter (told ++ [e]) (told' ++ [e']) o o' := by
  intro added added' f f' hadded hf
  have hmore : (e :: added).map EvaluationEvent.untimed =
      (e' :: added').map EvaluationEvent.untimed := by
    rw [List.map_cons, List.map_cons, he, hadded]
  rw [List.append_assoc, List.append_assoc]
  exact h _ _ f f' hmore hf

theorem AlikeAfter.record {log log' : List (LogEntry R)}
    (h : AlikeAfter (LogEntry.told log) (LogEntry.told log') o o') {e e' : EvaluationEvent R}
    (he : e.untimed = e'.untimed) :
    AlikeAfter (LogEntry.told (log ++ [.event e])) (LogEntry.told (log' ++ [.event e'])) o o' := by
  rw [LogEntry.told_append, LogEntry.told_append]
  exact h.tell he

/-- Observers that fail at no event answer alike. -/
theorem alikeAfter_of_neverFails (h : o.NeverFails) (h' : o'.NeverFails) :
    AlikeAfter told told' o o' :=
  fun _ _ _ _ _ _ => (h _ _).trans (h' _ _).symm

end Observer

/-! ### Approaches -/

/-- Approaches that answer alike: those that are `ready` for options can be set up with them, and
are then `running` until one of them fails. -/
structure Approach.Reproduces {A : Type} [Approach A] (options : Options)
    (ready running : A → A → Prop) : Prop where
  configure : ∀ {a a' : A}, ready a a' →
    (configure options a).outcome = (configure options a').outcome ∧
      ready (configure options a).approach (configure options a').approach ∧
      ((configure options a).outcome = .ok () →
        running (configure options a).approach (configure options a').approach)
  predict : ∀ {a a' : A}, running a a' → ∀ source file,
    (predict source file a).outcome = (predict source file a').outcome ∧
      running (predict source file a).approach (predict source file a').approach
  dispose : ∀ {a a' : A}, ready a a' →
    (dispose a).outcome = (dispose a').outcome ∧
      ready (dispose a).approach (dispose a').approach
  ready : ∀ {a a' : A}, running a a' → ready a a'

namespace Session

variable {R A α α' β β' : Type} [Quantity R]

/-! ### Related sessions -/

/-- Sessions of related approaches, with steady clocks and observers that answer alike. -/
structure Match (related : A → A → Prop) (s t : Session R A) : Prop where
  approaches : related s.registration.approach t.registration.approach
  clock : s.clock.Steady
  clock' : t.clock.Steady
  observers : Observer.AlikeAfter (LogEntry.told s.log) (LogEntry.told t.log) s.observer t.observer

variable {related later : A → A → Prop} {s t : Session R A}

theorem Match.mono (h : Match related s t) (hlater : ∀ {a a'}, related a a' → later a a') :
    Match later s t :=
  { h with approaches := hlater h.approaches }

theorem Match.record (h : Match related s t) {e e' : EvaluationEvent R}
    (he : e.untimed = e'.untimed) : Match related (s.record e) (t.record e') where
  approaches := h.approaches
  clock := h.clock
  clock' := h.clock'
  observers := h.observers.record he

/-- A call tells the observers nothing. -/
theorem Match.advance (h : Match related s t) {a a' : A} (ha : later a a') {clock clock' : Clock R}
    (hclock : clock.Steady) (hclock' : clock'.Steady) (c : Call)
    (events events' : List ApproachEvent) :
    Match later (s.advance a clock (LogEntry.ofCall s.registration.number c events))
      (t.advance a' clock' (LogEntry.ofCall t.registration.number c events')) where
  approaches := ha
  clock := hclock
  clock' := hclock'
  observers := by
    have htold (r : Session R A) (events : List ApproachEvent) :
        LogEntry.told (r.log ++ LogEntry.ofCall r.registration.number c events) =
          LogEntry.told r.log := by
      rw [LogEntry.told_append, LogEntry.told_ofCall, List.append_nil]
    rw [Session.advance, Session.advance, htold, htold]
    exact h.observers

/-! ### Computations in lockstep -/

/-- Two results are the same: values that correspond, or one and the same early end. -/
inductive Agree (failed later : A → A → Prop) (same : α → β → Prop)
    (x : EStateM.Result Halt (Session R A) α) (y : EStateM.Result Halt (Session R A) β) : Prop
  | ok {a : α} {b : β} {s t : Session R A} (hx : x = .ok a s) (hy : y = .ok b t) (hsame : same a b)
      (hlater : Match later s t)
  | error {halt : Halt} {s t : Session R A} (hx : x = .error halt s) (hy : y = .error halt t)
      (hfailed : Match failed s t)

/-- Two computations take related sessions to the same results. After a result the approaches are
related by `later`, and after an early end by `failed`. -/
def Lockstep (failed related later : A → A → Prop) (same : α → β → Prop) (x : Action R A α)
    (y : Action R A β) : Prop :=
  ∀ s t, Match related s t → Agree failed later same (x s) (y t)

section Lockstep

variable {failed related later last : A → A → Prop} {same : α → α' → Prop} {same' : β → β' → Prop}

theorem Lockstep.pure {a : α} {a' : α'} (h : same a a') :
    Lockstep (R := R) failed related related same (pure a) (pure a') :=
  fun _ _ hmatch => .ok rfl rfl h hmatch

theorem Lockstep.throw (halt : Halt) (hfailed : ∀ {a a'}, related a a' → failed a a') :
    Lockstep (R := R) failed related later same (throw halt) (throw halt) :=
  fun _ _ hmatch => .error rfl rfl (hmatch.mono hfailed)

theorem Lockstep.bind {x : Action R A α} {y : Action R A α'} {f : α → Action R A β}
    {g : α' → Action R A β'} (hx : Lockstep failed related later same x y)
    (hf : ∀ a a', same a a' → Lockstep failed later last same' (f a) (g a')) :
    Lockstep failed related last same' (x >>= f) (y >>= g) := by
  intro s t hmatch
  rcases hx s t hmatch with ⟨hs, ht, hsame, hlater⟩ | ⟨hs, ht, hfailed⟩
  · rw [bind_of_ok hs, bind_of_ok ht]
    exact hf _ _ hsame _ _ hlater
  · rw [bind_of_error hs, bind_of_error ht]
    exact .error rfl rfl hfailed

/-- Telling observers of events that are equal but for their times. -/
theorem tell_lockstep (hfailed : ∀ {a a'}, related a a' → failed a a') {e e' : EvaluationEvent R}
    (he : e.untimed = e'.untimed) :
    Lockstep failed related related Eq (tell e) (tell e') := by
  intro s t hmatch
  have hanswer := hmatch.observers.answer he
  rw [tell, tell, hanswer]
  cases t.observer (LogEntry.told t.log) e' with
  | ok _ => exact .ok rfl rfl rfl (hmatch.record he)
  | error failure => exact .error rfl rfl ((hmatch.record he).mono hfailed)

/-- Calling approaches that answer alike. -/
theorem call_lockstep {c : Call} {answer : A → Reply A α}
    (h : ∀ {a a'}, related a a' → (answer a).outcome = (answer a').outcome ∧
      failed (answer a).approach (answer a').approach ∧
      ∀ result, (answer a).outcome = .ok result → later (answer a).approach (answer a').approach) :
    Lockstep (R := R) failed related later Eq (call c answer) (call c answer) := by
  intro s t hmatch
  obtain ⟨houtcome, hfailed, hlater⟩ := h hmatch.approaches
  cases hs : (answer s.registration.approach).outcome with
  | ok result =>
    have ht := houtcome.symm.trans hs
    rw [call_of_ok hs, call_of_ok ht, afterCall_eq, afterCall_eq]
    exact .ok rfl rfl rfl (hmatch.advance (hlater result hs) hmatch.clock hmatch.clock' ..)
  | error halt =>
    have ht := houtcome.symm.trans hs
    rw [call_of_error hs, call_of_error ht, afterCall_eq, afterCall_eq]
    exact .error rfl rfl (hmatch.advance hfailed hmatch.clock hmatch.clock' ..)

end Lockstep

/-! ### Test cases -/

section Predict

variable [Approach A] {options : Options} {ready running : A → A → Prop}

/-- With a steady clock, predictions for a test case fail if the approach fails, and in no other
way. -/
theorem predict_of_steady (case : TestCase) {s : Session R A} (h : s.clock.Steady)
    {reply : Reply A (List TypePrediction)}
    (hreply : Approach.predict case.source case.id s.registration.approach = reply) :
    ∃ (time : R) (early late : Clock R),
      Quantity.le Quantity.zero time = true ∧ early.Steady ∧ late.Steady ∧
      let added := LogEntry.ofCall s.registration.number (.predict case.source case.id) reply.events
      predict case s =
        match reply.outcome with
        | .ok predictions => .ok (predictions, time) (s.advance reply.approach late added)
        | .error halt => .error halt (s.advance reply.approach early added) := by
  obtain ⟨started, stopped, time, early, late, hstart, hstop, htime, hle, hlate⟩ := h.read_twice
  have hearly : early.Steady := by
    have hread := h.read
    rwa [hstart] at hread
  refine ⟨time, early, late, hle, hearly, hlate, ?_⟩
  let s₁ := s.advance s.registration.approach early []
  subst hreply
  rw [predict, bind_of_ok (readClock_of_ok hstart)]
  -- The clock is read once more only after the approach has answered.
  cases houtcome : (Approach.predict case.source case.id s.registration.approach).outcome with
  | ok predictions =>
    have hcall := call_of_ok (s := s₁) (c := .predict case.source case.id) houtcome
    rw [bind_of_ok hcall, afterCall_eq, advance_advance, bind_of_ok (readClock_of_ok hstop),
      advance_advance, htime]
    simp only [List.nil_append, List.append_nil]
    rfl
  | error halt =>
    have hcall := call_of_error (s := s₁) (c := .predict case.source case.id) houtcome
    rw [bind_of_error hcall, afterCall_eq, advance_advance]
    rfl

/-- Predictions with times of their own. -/
structure SamePredictions (p q : List TypePrediction × R) : Prop where
  predictions : p.1 = q.1
  zero_le : Quantity.le Quantity.zero p.2 = true
  zero_le' : Quantity.le Quantity.zero q.2 = true

theorem predict_lockstep (h : Approach.Reproduces options ready running) (case : TestCase) :
    Lockstep (R := R) ready running running SamePredictions (predict case) (predict case) := by
  intro s t hmatch
  obtain ⟨houtcome, hrunning⟩ := h.predict hmatch.approaches case.source case.id
  obtain ⟨time, early, late, hle, hearly, hlate, heq⟩ := predict_of_steady case hmatch.clock rfl
  obtain ⟨time', early', late', hle', hearly', hlate', heq'⟩ :=
    predict_of_steady case hmatch.clock' rfl
  rw [heq, heq', houtcome]
  cases (Approach.predict case.source case.id t.registration.approach).outcome with
  | ok predictions =>
    exact .ok rfl rfl ⟨rfl, hle, hle'⟩ (hmatch.advance hrunning hlate hlate' ..)
  | error halt =>
    exact .error rfl rfl (hmatch.advance (h.ready hrunning) hearly hearly' ..)

end Predict

/-- Tallies that differ in their times alone, which are not negative. -/
structure SameTally (t u : CaseTally Binary64) : Prop where
  predictions : t.predictions = u.predictions
  truths : t.truths = u.truths
  matching : t.matching = u.matching
  zero_le : Quantity.le Quantity.zero t.time = true
  zero_le' : Quantity.le Quantity.zero u.time = true

theorem SameTally.empty : SameTally .empty .empty where
  predictions := rfl
  truths := rfl
  matching := rfl
  zero_le := by decide +kernel
  zero_le' := by decide +kernel

theorem SameTally.add {t u : CaseTally Binary64} (h : SameTally t u) (case : TestCase)
    {p q : List TypePrediction × Binary64} (hpq : SamePredictions p q) :
    SameTally (t.add case p.1 p.2) (u.add case q.1 q.2) where
  predictions := by rw [CaseTally.add, CaseTally.add, h.predictions, hpq.predictions]
  truths := by rw [CaseTally.add, CaseTally.add, h.truths]
  matching := by rw [CaseTally.add, CaseTally.add, h.matching, hpq.predictions]
  zero_le := Binary64.zero_le_add h.zero_le hpq.zero_le
  zero_le' := Binary64.zero_le_add h.zero_le' hpq.zero_le'

variable [Approach A] {options : Options} {ready running : A → A → Prop}

/-- Test cases stay in lockstep, with tallies that differ in their times alone. -/
theorem runCases_lockstep (h : Approach.Reproduces options ready running) (name : Text)
    (cases : List TestCase) {t u : CaseTally Binary64} (htu : SameTally t u) :
    Lockstep ready running running SameTally (runCases name cases t) (runCases name cases u) := by
  -- The times of the tallies drift apart, so the induction is over all that agree otherwise.
  induction cases generalizing t u with
  | nil => exact .pure htu
  | cons case rest ih =>
    refine (tell_lockstep h.ready rfl).bind fun _ _ _ =>
      (predict_lockstep h case).bind fun p q hpq => ?_
    obtain ⟨predictions, time⟩ := p
    obtain ⟨predictions', time'⟩ := q
    obtain rfl : predictions = predictions' := hpq.predictions
    refine (tell_lockstep h.ready rfl).bind fun _ _ _ => ?_
    exact ih (htu.add case hpq)

/-! ### Scores -/

/-- Results that differ in their times alone. -/
def SameResult (r r' : EvaluationResult Binary64) : Prop := r.untimed = r'.untimed

/-- A score does not depend on the time. -/
theorem untimed_result (policy : ScoringPolicy) (name : Text) {t u : CaseTally Binary64}
    (h : SameTally t u) :
    (t.matching.result policy name t.predictions t.truths t.time).map EvaluationResult.untimed =
      (u.matching.result policy name u.predictions u.truths u.time).map
        EvaluationResult.untimed := by
  refine EvaluationResult.untimed_accept ?_ h.zero_le h.zero_le'
  rw [h.matching, h.predictions, h.truths]
  rfl

theorem configure_lockstep (h : Approach.Reproduces options ready running) :
    Lockstep (R := Binary64) ready ready running Eq (configure options) (configure options) := by
  refine call_lockstep fun hready => ?_
  obtain ⟨houtcome, hlater, hrunning⟩ := h.configure hready
  exact ⟨houtcome, hlater, fun _ => hrunning⟩

theorem scored_lockstep (h : Approach.Reproduces options ready running) (policy : ScoringPolicy)
    (name : Text) (cases : List TestCase) :
    Lockstep ready ready running SameResult (scored policy name cases options)
      (scored policy name cases options) := by
  refine (configure_lockstep h).bind fun _ _ _ =>
    (runCases_lockstep h name cases .empty).bind fun t u htu => ?_
  have hscores := untimed_result policy name htu
  cases ht : t.matching.result policy name t.predictions t.truths t.time with
  | ok result =>
    cases hu : u.matching.result policy name u.predictions u.truths u.time with
    | ok result' =>
      rw [ht, hu] at hscores
      exact .pure (Except.ok.inj hscores)
    | error report =>
      rw [ht, hu] at hscores
      cases hscores
  | error report =>
    cases hu : u.matching.result policy name u.predictions u.truths u.time with
    | ok result' =>
      rw [ht, hu] at hscores
      cases hscores
    | error report' =>
      rw [ht, hu] at hscores
      obtain rfl := Except.error.inj hscores
      exact .throw _ h.ready

/-! ### Evaluations -/

theorem dispose_lockstep (h : Approach.Reproduces options ready running) :
    Lockstep (R := Binary64) ready ready ready Eq dispose dispose := by
  refine call_lockstep fun hready => ?_
  obtain ⟨houtcome, hlater⟩ := h.dispose hready
  exact ⟨houtcome, hlater, fun _ _ => hlater⟩

theorem disposeAfter_lockstep (h : Approach.Reproduces options ready running) (name : Text)
    (failure : Failure) :
    Lockstep (R := Binary64) ready ready ready SameResult (disposeAfter name failure)
      (disposeAfter name failure) := by
  intro s t hmatch
  rw [disposeAfter, disposeAfter]
  rcases dispose_lockstep h s t hmatch with ⟨hs, ht, -, hlater⟩ | @⟨halt, _, _, hs, ht, hfailed⟩
  · rw [hs, ht]
    exact .error rfl rfl hlater
  · rw [hs, ht]
    cases halt with
    | interrupted => exact .error rfl rfl hfailed
    | failed second =>
      let event : EvaluationEvent Binary64 := .disposeFailed name second.message
      have htell : Lockstep ready ready ready Eq (tell event) (tell event) :=
        tell_lockstep (fun hready => hready) rfl
      have htold := htell _ _ hfailed
      dsimp only
      rcases htold with ⟨hs', ht', -, hlater⟩ | ⟨hs', ht', hlater⟩
      · rw [hs', ht']
        exact .error rfl rfl hlater
      · rw [hs', ht']
        exact .error rfl rfl hlater

omit [Approach A] in
theorem announce_lockstep (name : Text) {r r' : EvaluationResult Binary64}
    (h : SameResult r r') :
    Lockstep (A := A) ready ready ready SameResult (announce name r) (announce name r') := by
  obtain ⟨-, -, haccuracy, -, -, -, htotal, hcorrect, -, -⟩ := EvaluationResult.mk.inj h
  have hevent : EvaluationEvent.untimed
      (.evaluationCompleted name r.accuracy r.correct r.total r.time) =
        EvaluationEvent.untimed
          (.evaluationCompleted name r'.accuracy r'.correct r'.total r'.time) := by
    rw [haccuracy, htotal, hcorrect]
    rfl
  exact (tell_lockstep (fun hready => hready) hevent).bind fun _ _ _ => .pure h

theorem complete_lockstep (h : Approach.Reproduces options ready running) (name : Text)
    {r r' : EvaluationResult Binary64} (hr : SameResult r r') :
    Lockstep ready ready ready SameResult (complete name r) (complete name r') := by
  intro s t hmatch
  rw [complete, complete]
  rcases dispose_lockstep h s t hmatch with ⟨hs, ht, -, hlater⟩ | @⟨halt, _, _, hs, ht, hfailed⟩
  · rw [hs, ht]
    exact announce_lockstep name hr _ _ hlater
  · rw [hs, ht]
    cases halt <;> exact .error rfl rfl hfailed

theorem scoredAndDisposed_lockstep (h : Approach.Reproduces options ready running)
    (policy : ScoringPolicy) (name : Text) (cases : List TestCase) :
    Lockstep ready ready ready SameResult (scoredAndDisposed policy name cases options)
      (scoredAndDisposed policy name cases options) := by
  intro s t hmatch
  rw [scoredAndDisposed, scoredAndDisposed]
  rcases scored_lockstep h policy name cases s t hmatch with
    ⟨hs, ht, hresult, hlater⟩ | @⟨halt, _, _, hs, ht, hfailed⟩
  · rw [hs, ht]
    exact complete_lockstep h name hresult _ _ (hlater.mono h.ready)
  · rw [hs, ht]
    cases halt with
    | interrupted => exact .error rfl rfl hfailed
    | failed failure => exact disposeAfter_lockstep h name failure _ _ hfailed

/-- **Evaluations in lockstep.** Evaluations of approaches that cannot be told apart end in the same
way, with results that differ in their times alone. -/
theorem evaluate_lockstep (h : Approach.Reproduces options ready running) (policy : ScoringPolicy)
    (name : Text) (cases : List TestCase) :
    Lockstep ready ready ready SameResult (evaluate policy name cases options)
      (evaluate policy name cases options) :=
  (tell_lockstep (fun hready => hready) rfl).bind fun _ _ _ =>
    scoredAndDisposed_lockstep h policy name cases

end Session

end TypeBench
