import TypeBench.Proofs.Evaluation.Disposal

/-!
# Calls and answers in an evaluation

An evaluation whose start is not refused sets its approach up with its options, asks it for the
predictions for its test cases in their order, and disposes of it. It may break off before any test
case, and nothing but an interrupt keeps it from disposing of the approach. All that is recorded of
the approach are its own answers to these calls, and it is then as they have left it. This holds for
every approach, clock and observer.

## Main definitions

* `Approach.eventsAt`, `LogEntry.ofCalls`: the events of an approach at a call, and what is recorded
  of an approach that is called in order.
* `Session.Called`: a session after calls of its approach.
* `Session.Makes`: computations that make calls in order until they break off.

## Main results

* `Session.Called.trans`, `Session.Makes.bind`: one step after another.
* `Session.makes_runCases`: test cases are called for in their order.
* `Session.evaluate_called`: the calls of an evaluation.
-/

namespace TypeBench

/-- The events of an approach at a call. -/
def Approach.eventsAt {A : Type} [Approach A] (a : A) : Call → List ApproachEvent
  | .configure options => (configure options a).events
  | .predict source file => (predict source file a).events
  | .dispose => (dispose a).events

/-- The call for the predictions for a test case. -/
def Call.ofCase (case : TestCase) : Call := .predict case.source case.id

/-! ### Records -/

namespace LogEntry

variable {R A : Type}

/-- Whether an entry is of an approach. -/
def isOfApproach : LogEntry R → Bool
  | .event _ => false
  | _ => true

theorem calls_filter_isOfApproach (log : List (LogEntry R)) :
    calls (log.filter isOfApproach) = calls log := by
  induction log with
  | nil => rfl
  | cons entry log ih =>
    cases entry with
    | event e => exact ih
    | approachEvent e => exact ih
    | call number c => exact congrArg ((number, c) :: ·) ih

theorem filter_isOfApproach_ofCall (number : Nat) (c : Call) (events : List ApproachEvent) :
    (ofCall (R := R) number c events).filter isOfApproach = ofCall number c events := by
  refine List.filter_eq_self.2 (List.forall_mem_cons.2 ⟨rfl, fun entry hentry => ?_⟩)
  obtain ⟨e, -, rfl⟩ := List.mem_map.1 hentry
  rfl

variable [Approach A]

/-- What is recorded of an approach with a number that is called in order: every call, and the
events at it. -/
def ofCalls (number : Nat) : A → List Call → List (LogEntry R)
  | _, [] => []
  | a, c :: rest =>
    ofCall number c (Approach.eventsAt a c) ++ ofCalls number (Approach.after a c) rest

theorem ofCalls_append (number : Nat) (a : A) (made more : List Call) :
    ofCalls (R := R) number a (made ++ more) =
      ofCalls number a made ++ ofCalls number (made.foldl Approach.after a) more := by
  induction made generalizing a with
  | nil => rfl
  | cons c made ih =>
    rw [List.cons_append, ofCalls, ofCalls, ih, List.append_assoc]
    rfl

theorem calls_ofCalls (number : Nat) (a : A) (made : List Call) :
    calls (ofCalls (R := R) number a made) = made.map (number, ·) := by
  induction made generalizing a with
  | nil => rfl
  | cons c made ih =>
    rw [ofCalls, calls_append, calls_ofCall, ih]
    rfl

end LogEntry

/-! ### Sessions -/

namespace Session

variable {R A α β : Type}

/-- Every result is an outcome in the session that it leaves. -/
theorem exists_resultOf (r : EStateM.Result Halt (Session R A) α) :
    ∃ outcome, r = resultOf outcome (left r) := by
  cases r with
  | ok a s => exact ⟨.ok a, rfl⟩
  | error halt s => exact ⟨.error halt, rfl⟩

variable [Approach A]

/-- A session after another one, between which the approach was called in order. It is as these
calls have left it, and no more is recorded of it than its answers to them. -/
structure Called (made : List Call) (s s' : Session R A) : Prop where
  observer_eq : s'.observer = s.observer
  registration_eq : s'.registration =
    ⟨s.registration.number, made.foldl Approach.after s.registration.approach⟩
  exists_added : ∃ added, s'.log = s.log ++ added ∧
    added.filter LogEntry.isOfApproach =
      LogEntry.ofCalls s.registration.number s.registration.approach made

variable {made more all : List Call} {s s' s'' : Session R A}

theorem Called.refl (s : Session R A) : Called [] s s :=
  ⟨rfl, rfl, [], (List.append_nil _).symm, rfl⟩

/-- What is called on one way and then on another is called on both. -/
theorem Called.trans (h : Called made s s') (h' : Called more s' s'') :
    Called (made ++ more) s s'' where
  observer_eq := h'.observer_eq.trans h.observer_eq
  registration_eq := by rw [h'.registration_eq, h.registration_eq, List.foldl_append]
  exists_added := by
    obtain ⟨added, hlog, hadded⟩ := h.exists_added
    obtain ⟨added', hlog', hadded'⟩ := h'.exists_added
    refine ⟨added ++ added', ?_, ?_⟩
    · rw [hlog', hlog, List.append_assoc]
    · rw [List.filter_append, hadded, hadded', h.registration_eq, LogEntry.ofCalls_append]

theorem called_tell (e : EvaluationEvent R) (s : Session R A) : Called [] s (left (tell e s)) := by
  have hleft : left (tell e s) = s.record e := by
    rw [tell]
    split <;> rfl
  rw [hleft]
  exact ⟨rfl, rfl, [.event e], rfl, rfl⟩

/-- The approach is called whatever it answers. -/
theorem called_call {c : Call} {answer : A → Reply A α}
    (h : ∀ a, (answer a).approach = Approach.after a c ∧
      (answer a).events = Approach.eventsAt a c) (s : Session R A) :
    Called [c] s (left (call c answer s)) := by
  obtain ⟨happroach, hevents⟩ := h s.registration.approach
  have hleft : left (call c answer s) = s.afterCall c (answer s.registration.approach) := by
    cases houtcome : (answer s.registration.approach).outcome with
    | ok result => rw [call_of_ok houtcome, left]
    | error halt => rw [call_of_error houtcome, left]
  rw [hleft, afterCall_eq, happroach, hevents]
  refine ⟨rfl, rfl, LogEntry.ofCall .., rfl, ?_⟩
  rw [LogEntry.filter_isOfApproach_ofCall]
  exact (List.append_nil _).symm

theorem called_configure (options : Options) (s : Session R A) :
    Called [.configure options] s (left (configure options s)) :=
  called_call (fun _ => ⟨rfl, rfl⟩) s

theorem called_dispose (s : Session R A) : Called [.dispose] s (left (dispose s)) :=
  called_call (fun _ => ⟨rfl, rfl⟩) s

theorem called_announce (name : Text) (result : EvaluationResult R) (s : Session R A) :
    Called [] s (left (announce name result s)) := by
  let event : EvaluationEvent R :=
    .evaluationCompleted name result.accuracy result.correct result.total result.time
  have htold := called_tell event s
  rw [announce]
  cases hrun : tell event s with
  | ok _ s' =>
    rw [hrun] at htold
    rw [bind_of_ok hrun]
    exact htold
  | error halt s' =>
    rw [hrun] at htold
    rw [bind_of_error hrun]
    exact htold

/-- After a result the approach is disposed of, and then the result is announced. -/
theorem called_complete (name : Text) (result : EvaluationResult R) (s : Session R A) :
    Called [.dispose] s (left (complete name result s)) := by
  have hdispose := called_dispose s
  rw [complete]
  rcases hrun : dispose s with ⟨_, s'⟩ | ⟨failure | _, s'⟩
  · rw [hrun] at hdispose
    exact hdispose.trans (called_announce name result s')
  · rw [hrun] at hdispose
    exact hdispose
  · rw [hrun] at hdispose
    exact hdispose

/-- After a failure the approach is disposed of, and then a failure to do so is reported. -/
theorem called_disposeAfter (name : Text) (failure : Failure) (s : Session R A) :
    Called [.dispose] s (left (disposeAfter (α := α) name failure s)) := by
  have hdispose := called_dispose s
  rw [disposeAfter]
  rcases hrun : dispose s with ⟨_, s'⟩ | ⟨second | _, s'⟩
  · rw [hrun] at hdispose
    exact hdispose
  · rw [hrun] at hdispose
    have htold := called_tell (.disposeFailed name second.message) s'
    dsimp only
    split
    · rename_i heq
      rw [heq] at htold
      exact hdispose.trans htold
    · rename_i heq
      rw [heq] at htold
      exact hdispose.trans htold
  · rw [hrun] at hdispose
    exact hdispose

theorem disposeAfter_ne_ok (name : Text) (failure : Failure) (s s' : Session R A) (a : α) :
    disposeAfter name failure s ≠ .ok a s' := by
  intro h
  rw [disposeAfter] at h
  generalize dispose s = result at h
  rcases result with ⟨_, s₁⟩ | ⟨second | _, s₁⟩
  · cases h
  · dsimp only at h
    split at h <;> cases h
  · cases h

/-! ### Computations -/

/-- A computation that makes calls in order until it breaks off, and all of them if it does not. -/
def Makes (all : List Call) (x : Action R A α) : Prop :=
  ∀ s, ∃ made, made <+: all ∧ Called made s (left (x s)) ∧ ∀ a s', x s = .ok a s' → made = all

/-- A computation that makes its calls in every case. -/
theorem makes_of_called {x : Action R A α} (h : ∀ s, Called all s (left (x s))) : Makes all x :=
  fun s => ⟨all, List.prefix_rfl, h s, fun _ _ _ => rfl⟩

theorem Makes.pure (a : α) : Makes [] (pure a : Action R A α) := makes_of_called .refl

theorem Makes.throw (halt : Halt) : Makes [] (throw halt : Action R A α) := makes_of_called .refl

theorem Makes.bind {x : Action R A α} {f : α → Action R A β} (hx : Makes all x)
    (hf : ∀ a, Makes more (f a)) : Makes (all ++ more) (x >>= f) := by
  intro s
  obtain ⟨made, hinitial, hmade, hall⟩ := hx s
  cases hrun : x s with
  | ok a s' =>
    rw [hrun] at hmade
    obtain rfl := hall a s' hrun
    obtain ⟨made', hinitial', hmade', hall'⟩ := hf a s'
    rw [bind_of_ok hrun]
    exact ⟨made ++ made', (List.prefix_append_right_inj made).2 hinitial', hmade.trans hmade',
      fun b s'' hlast => congrArg (made ++ ·) (hall' b s'' hlast)⟩
  | error halt s' =>
    rw [hrun] at hmade
    rw [bind_of_error hrun]
    exact ⟨made, hinitial.trans (List.prefix_append all more), hmade, nofun⟩

theorem makes_tell (e : EvaluationEvent R) : Makes (A := A) [] (tell e) :=
  makes_of_called (called_tell e)

theorem makes_readClock : Makes (A := A) (R := R) [] readClock := by
  refine makes_of_called fun s => ?_
  rw [readClock]
  split <;> exact ⟨rfl, rfl, [], (List.append_nil _).symm, rfl⟩

variable [Quantity R]

theorem makes_predict (case : TestCase) :
    Makes (A := A) (R := R) [Call.ofCase case] (predict case) := by
  have hcall : Makes (R := R) [Call.ofCase case]
      (call (.predict case.source case.id) (Approach.predict (A := A) case.source case.id)) :=
    makes_of_called (called_call fun _ => ⟨rfl, rfl⟩)
  change Makes ([] ++ ([Call.ofCase case] ++ ([] ++ []))) (predict case)
  refine makes_readClock.bind fun started => hcall.bind fun predictions =>
    makes_readClock.bind fun stopped => ?_
  cases Clock.elapsed started stopped with
  | ok time => exact .pure _
  | error fault => exact .throw _

/-- Test cases are called for in their order. -/
theorem makes_runCases (name : Text) (cases : List TestCase) (t : CaseTally R) :
    Makes (A := A) (cases.map Call.ofCase) (runCases name cases t) := by
  induction cases generalizing t with
  | nil => exact .pure t
  | cons case rest ih =>
    have hall := (makes_tell (A := A) (.caseStarted name case.id case.name)).bind fun _ =>
      (makes_predict case).bind fun p =>
        (makes_tell (.caseCompleted name case.id p.1.length)).bind fun _ =>
          ih (t.add case p.1 p.2)
    exact hall

theorem makes_predictAndScore (policy : ScoringPolicy) (name : Text) (cases : List TestCase) :
    Makes (A := A) (R := R) (cases.map Call.ofCase) (predictAndScore policy name cases) := by
  rw [← List.append_nil (cases.map Call.ofCase)]
  refine (makes_runCases name cases CaseTally.empty).bind fun t => ?_
  cases t.matching.result policy name t.predictions t.truths t.time with
  | ok result => exact .pure result
  | error report => exact .throw _

/-! ### Evaluations -/

/-- A run sets the approach up first, even if it breaks off there. -/
theorem scored_called (policy : ScoringPolicy) (name : Text) (cases : List TestCase)
    (options : Options) (s : Session R A) :
    ∃ asked, asked <+: cases ∧
      Called (.configure options :: asked.map Call.ofCase) s
        (left (scored policy name cases options s)) ∧
      ∀ result s', scored policy name cases options s = .ok result s' → asked = cases := by
  have hconfigure := called_configure options s
  rw [scored_eq]
  cases hrun : configure options s with
  | ok _ s' =>
    rw [hrun] at hconfigure
    obtain ⟨made, hinitial, hmade, hall⟩ := makes_predictAndScore policy name cases s'
    obtain ⟨asked, hasked, rfl⟩ := List.prefix_map_iff.1 hinitial
    rw [bind_of_ok hrun]
    refine ⟨asked, hasked, hconfigure.trans hmade, fun result s'' hscored => ?_⟩
    have hlength := congrArg List.length (hall result s'' hscored)
    rw [List.length_map, List.length_map] at hlength
    exact hasked.eq_of_length hlength
  | error halt s' =>
    rw [hrun] at hconfigure
    rw [bind_of_error hrun]
    exact ⟨[], List.nil_prefix, hconfigure, nofun⟩

/-- After a run the approach is disposed of, unless an interrupt ends it. -/
theorem scoredAndDisposed_called (policy : ScoringPolicy) (name : Text) (cases : List TestCase)
    (options : Options) (s : Session R A) :
    ∃ outcome s' asked isDisposed,
      scoredAndDisposed policy name cases options s = resultOf outcome s' ∧ asked <+: cases ∧
      Called ((.configure options :: asked.map Call.ofCase) ++
        if isDisposed then [.dispose] else []) s s' ∧
      (∀ result, outcome = .ok result → asked = cases) ∧
      (isDisposed = false → outcome = .error .interrupted) := by
  obtain ⟨asked, hasked, hscored, hall⟩ := scored_called policy name cases options s
  have htrue {p : Prop} (h : true = false) : p := (Bool.false_ne_true h.symm).elim
  rw [scoredAndDisposed]
  rcases hrun : scored policy name cases options s with ⟨result, s'⟩ | ⟨failure | _, s'⟩
  · rw [hrun] at hscored
    obtain ⟨outcome, houtcome⟩ := exists_resultOf (complete name result s')
    exact ⟨outcome, _, asked, true, houtcome, hasked,
      hscored.trans (called_complete name result s'), fun _ _ => hall result s' hrun, htrue⟩
  · rw [hrun] at hscored
    obtain ⟨outcome, houtcome⟩ := exists_resultOf (disposeAfter name failure s')
    refine ⟨outcome, _, asked, true, houtcome, hasked,
      hscored.trans (called_disposeAfter name failure s'), fun result hresult => ?_, htrue⟩
    rw [hresult] at houtcome
    exact (disposeAfter_ne_ok _ _ _ _ _ houtcome).elim
  · rw [hrun] at hscored
    refine ⟨.error .interrupted, s', asked, false, rfl, hasked, ?_, fun result hresult => ?_,
      fun _ => rfl⟩
    · rw [if_neg Bool.false_ne_true, List.append_nil]
      exact hscored
    · cases hresult

/-- **The calls of an evaluation.** If the observer refuses the start, its failure is all that comes
of the evaluation. Otherwise the approach is set up with the options, called for test cases in their
order and disposed of. It is called for all of them where there is a result, and disposed of unless
an interrupt arrives. -/
theorem evaluate_called (policy : ScoringPolicy) (name : Text) (cases : List TestCase)
    (options : Options) (s : Session R A) :
    let start : EvaluationEvent R := .evaluationStarted name cases.length
    (∀ failure, s.observer (LogEntry.told s.log) start = .error failure →
      evaluate policy name cases options s = .error (.failed failure) (s.record start)) ∧
    (s.observer (LogEntry.told s.log) start = .ok () →
      ∃ outcome s' asked isDisposed,
        evaluate policy name cases options s = resultOf outcome s' ∧ asked <+: cases ∧
        Called ((.configure options :: asked.map Call.ofCase) ++
          if isDisposed then [.dispose] else []) (s.record start) s' ∧
        (∀ result, outcome = .ok result → asked = cases) ∧
        (isDisposed = false → outcome = .error .interrupted)) := by
  intro start
  rw [evaluate]
  constructor
  · intro failure hobserver
    have htell : tell start s = .error (.failed failure) (s.record start) := by
      rw [tell, hobserver]
    exact bind_of_error htell _
  · intro hobserver
    have htell : tell start s = .ok () (s.record start) := by
      rw [tell, hobserver]
    rw [bind_of_ok htell]
    exact scoredAndDisposed_called policy name cases options (s.record start)

end Session

end TypeBench
