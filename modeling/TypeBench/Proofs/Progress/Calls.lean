import TypeBench.Proofs.Evaluation.Record
import TypeBench.Proofs.Evaluation.Watching
import TypeBench.Proofs.Text.Order

/-!
# Calls of a progress observer

A progress observer is told of events and stopped, in any order. It counts the test cases that are
done for each approach that was started, whether it shows anything or not, and whatever becomes of
its rows. A call fails where the rows are to be shown and the tags of a label do not fit, or where a
total is too large. The label of a row depends on how many approaches have rows, so whether all
calls are taken depends on the approaches that were started, and in which order.

## Main definitions

* `ProgressCall`, `Progress.answer`, `Progress.after`: a call, the state after it, and after calls.
* `Progress.Takes`: a call does not fail.
* `Progress.recent`: the events since the last stop.
* `Progress.Fits`: the row of an approach can be shown.

## Main results

* `Progress.observe_cases`: what an event does.
* `Progress.find?_counts_after`: counts after the start of an approach.
* `Progress.keyed_after`: an approach with a row has a count.
* `Progress.takes_stop_iff`, `Progress.takes_event_iff`: which calls are taken.
* `Progress.takes_all_iff`: all calls are taken if and only if all rows fit.
-/

namespace TypeBench

open Markup

/-- A call of a progress observer: an event that it is told of, or the end. -/
inductive ProgressCall where
  | event (e : EvaluationEvent Binary64)
  | stop
  deriving DecidableEq

namespace ProgressCall

/-- The event that an observer is told of, if any. -/
def event? : ProgressCall → Option (EvaluationEvent Binary64)
  | event e => some e
  | stop => none

/-- The approach whose evaluation a call tells to be started. -/
def started? (c : ProgressCall) : Option Text := c.event?.bind EvaluationEvent.started?

/-- Whether a call tells that a test case of an approach is done. -/
def completes (approach : Text) (c : ProgressCall) : Bool := c.event?.any (·.completes approach)

/-- A call as a notice. -/
def notice : ProgressCall → Notice
  | event e => e.notice
  | stop => ⟨"stop", []⟩

end ProgressCall

namespace Progress

/-- The state after a call, and what keeps the rows from being shown if they are. Rows that cannot
be shown at the end stay. -/
def answer (p : Progress Nat) : ProgressCall → Progress Nat × Option Tag.Fault
  | .event e => p.observe e
  | .stop =>
    match p.stop with
    | .ok stopped => (stopped, none)
    | .error fault => (p, some fault)

/-- The state after calls, from the first one on. -/
def after (isDisabled isColoured : Bool) (calls : List ProgressCall) : Progress Nat :=
  calls.foldl (fun p c => (p.answer c).1) (start isDisabled isColoured)

theorem after_append_singleton (isDisabled isColoured : Bool) (calls : List ProgressCall)
    (c : ProgressCall) :
    after isDisabled isColoured (calls ++ [c]) = ((after isDisabled isColoured calls).answer c).1 :=
  List.foldl_append

/-- What every call keeps holds after calls. -/
theorem after_induction {P : Progress Nat → Prop} {isDisabled isColoured : Bool}
    (hstart : P (start isDisabled isColoured)) (hanswer : ∀ p c, P p → P (p.answer c).1)
    (calls : List ProgressCall) : P (after isDisabled isColoured calls) :=
  List.foldlRecOn calls _ hstart fun p hp c _ => hanswer p c hp

/-! ### Events -/

/-- An event starts an approach. Or else nothing keeps it from being taken, and it has no effect, or
changes counts and brings an approach up to date. -/
theorem observe_cases (p : Progress Nat) (e : EvaluationEvent Binary64) :
    (∃ a total, e = .evaluationStarted a total) ∨
      e.started? = none ∧ (p.observe e).2 = none ∧
        ((p.observe e).1 = p ∨ ∃ counts a status,
          (p.observe e).1 = Progress.update (.text a) status { p with counts := counts }) := by
  cases e with
  | evaluationStarted a total => exact .inl ⟨a, total, rfl⟩
  | caseCompleted a =>
    refine .inr ⟨rfl, rfl, .inr ?_⟩
    rw [observe, advance]
    split
    · exact ⟨_, a, none, rfl⟩
    · exact ⟨p.counts, a, none, rfl⟩
  | evaluationCompleted a accuracy _ _ _ =>
    exact .inr ⟨rfl, rfl, .inr ⟨p.counts, a, some (accuracyStatus accuracy), rfl⟩⟩
  | evaluationFailed a =>
    exact .inr ⟨rfl, rfl, .inr ⟨p.counts, a, some failedStatus, rfl⟩⟩
  | _ => exact .inr ⟨rfl, rfl, .inl rfl⟩

/-! ### Counts -/

section Counts

variable {T : Type}

theorem counts_update (approach : Value) (status : Option Text) (p : Progress T) :
    (p.update approach status).counts = p.counts := by
  rw [update_eq]

theorem latest_update (approach : Value) (status : Option Text) (p : Progress T) :
    (p.update approach status).latest = p.latest := by
  rw [update_eq]

theorem counts_begin (approach : Value) (total : T) (p : Progress T) :
    (p.begin approach total).1.counts = Value.insert approach 0 p.counts := by
  rw [begin]
  split
  · rfl
  · rw [addRow]
    split <;> rfl

theorem counts_stop {p stopped : Progress T} (h : p.stop = .ok stopped) :
    stopped.counts = p.counts := by
  rw [stop] at h
  split at h
  · cases h
  · obtain rfl := Except.ok.inj h
    rfl

/-- A test case that is done raises the count of its approach, if there is one. -/
theorem find?_counts_advance (a b : Text) (p : Progress T) :
    Value.find? (.text a) (p.advance (.text b)).counts =
      (Value.find? (.text a) p.counts).map (· + if b = a then 1 else 0) := by
  rw [advance, counts_update]
  by_cases hname : b = a
  · subst hname
    cases hfind : Value.find? (.text b) p.counts with
    | none => exact hfind
    | some n =>
      rw [if_pos rfl]
      exact (Value.find?_insert_text ..).trans (if_pos rfl)
  · have hsame : (Value.find? (.text a) p.counts).map (· + if b = a then 1 else 0) =
        Value.find? (.text a) p.counts := by
      rw [if_neg hname]
      cases Value.find? (.text a) p.counts <;> rfl
    rw [hsame]
    cases hfind : Value.find? (.text b) p.counts with
    | none => rfl
    | some n => exact (Value.find?_insert_text ..).trans (if_neg hname)

end Counts

/-- The count of an approach after a call: a start sets it back, and a test case that is done raises
it if there is one. -/
theorem find?_counts_answer (p : Progress Nat) (c : ProgressCall) (a : Text) :
    Value.find? (.text a) (p.answer c).1.counts =
      if c.started? = some a then some 0
      else (Value.find? (.text a) p.counts).map (· + if c.completes a then 1 else 0) := by
  have hsame {p' : Progress Nat} (h : p'.counts = p.counts) :
      Value.find? (.text a) p'.counts = (Value.find? (.text a) p.counts).map (· + 0) := by
    rw [h]
    cases Value.find? (.text a) p.counts <;> rfl
  cases c with
  | stop =>
    rw [answer]
    split
    · exact hsame (counts_stop ‹_›)
    · exact hsame rfl
  | event e =>
    cases e with
    | evaluationStarted b total =>
      have hstarted : (ProgressCall.event (.evaluationStarted b total)).started? = some b := rfl
      rw [answer, observe, counts_begin, Value.find?_insert_text, hstarted]
      by_cases hname : b = a
      · rw [if_pos hname, if_pos (congrArg some hname)]
      · rw [if_neg hname, if_neg fun e => hname (Option.some.inj e)]
        exact hsame rfl
    | caseCompleted b id predictions =>
      refine (find?_counts_advance a b p).trans ?_
      by_cases hname : b = a
      · have hcompletes : (ProgressCall.event (.caseCompleted b id predictions)).completes a =
            true := decide_eq_true hname
        rw [hcompletes, if_pos hname]
        rfl
      · have hcompletes : (ProgressCall.event (.caseCompleted b id predictions)).completes a =
            false := decide_eq_false hname
        rw [hcompletes, if_neg hname]
        rfl
    | evaluationCompleted => exact hsame (counts_update ..)
    | evaluationFailed => exact hsame (counts_update ..)
    | _ => exact hsame rfl

/-- An approach that was never started has no count. -/
theorem find?_counts_after_of_not_started {isDisabled isColoured : Bool}
    {calls : List ProgressCall} {a : Text} (h : ∀ c ∈ calls, c.started? ≠ some a) :
    Value.find? (.text a) (after isDisabled isColoured calls).counts = none := by
  induction calls using List.reverseRecOn with
  | nil => rfl
  | append_singleton calls c ih =>
    obtain ⟨hcalls, hc⟩ := List.forall_mem_append.1 h
    rw [after_append_singleton, find?_counts_answer, if_neg (hc c List.mem_cons_self), ih hcalls]
    rfl

/-- After its last start an approach has as many test cases as are done since then. -/
theorem find?_counts_after {isDisabled isColoured : Bool} {before later : List ProgressCall}
    {a : Text} {start : ProgressCall} (hstart : start.started? = some a)
    (h : ∀ c ∈ later, c.started? ≠ some a) :
    Value.find? (.text a) (after isDisabled isColoured (before ++ start :: later)).counts =
      some (later.countP (·.completes a)) := by
  induction later using List.reverseRecOn with
  | nil => rw [after_append_singleton, find?_counts_answer, if_pos hstart, List.countP_nil]
  | append_singleton later c ih =>
    obtain ⟨hlater, hc⟩ := List.forall_mem_append.1 h
    have hcalls : before ++ start :: (later ++ [c]) = (before ++ start :: later) ++ [c] := by
      rw [List.append_assoc, List.cons_append]
    rw [hcalls, after_append_singleton, find?_counts_answer, if_neg (hc c List.mem_cons_self),
      ih hlater, List.countP_append, List.countP_singleton, Option.map_some]

/-! ### Approaches with rows -/

/-- An approach with a latest row has a count. -/
def Keyed (p : Progress Nat) : Prop :=
  ∀ a : Text, Value.find? (.text a) p.latest ≠ none → Value.find? (.text a) p.counts ≠ none

/-- No event but its own start gives another row to an approach. -/
theorem find?_latest_observe (p : Progress Nat) {e : EvaluationEvent Binary64} {a : Text}
    (h : e.started? ≠ some a) :
    Value.find? (.text a) (p.observe e).1.latest = Value.find? (.text a) p.latest := by
  rcases observe_cases p e with ⟨b, total, rfl⟩ | ⟨-, -, hsame | ⟨counts, b, status, hupdate⟩⟩
  · have hname : ¬b = a := fun e => h (congrArg some e)
    rw [observe, begin]
    split
    · rfl
    · rw [addRow]
      split
      · rfl
      · exact (Value.find?_insert_text ..).trans (if_neg hname)
  · rw [hsame]
  · rw [hupdate, latest_update]

/-- No call but its own start gives a row to an approach. -/
theorem find?_latest_answer (p : Progress Nat) (c : ProgressCall) (a : Text)
    (h : Value.find? (.text a) (p.answer c).1.latest ≠ none) :
    c.started? = some a ∨ Value.find? (.text a) p.latest ≠ none := by
  cases c with
  | stop =>
    rw [answer, stop] at h
    cases hfault : p.fault? with
    | none =>
      rw [hfault] at h
      exact absurd rfl h
    | some fault =>
      rw [hfault] at h
      exact .inr h
  | event e =>
    by_cases hstarted : e.started? = some a
    · exact .inl hstarted
    · rw [answer, find?_latest_observe p hstarted] at h
      exact .inr h

theorem Keyed.answer {p : Progress Nat} (h : p.Keyed) (c : ProgressCall) :
    (p.answer c).1.Keyed := by
  intro a hlatest
  rw [find?_counts_answer]
  by_cases hstarted : c.started? = some a
  · rw [if_pos hstarted]
    exact Option.some_ne_none 0
  · have hcount := h a ((find?_latest_answer p c a hlatest).resolve_left hstarted)
    rw [if_neg hstarted]
    exact mt Option.map_eq_none_iff.1 hcount

/-- After any calls an approach with a row has a count. -/
theorem keyed_after (isDisabled isColoured : Bool) (calls : List ProgressCall) :
    (after isDisabled isColoured calls).Keyed :=
  after_induction (fun _ h => absurd rfl h) (fun _ c h => h.answer c) calls

/-! ### Calls that are taken -/

/-- A call is taken: its notice has the effect of the call. -/
def Takes (p : Progress Nat) (c : ProgressCall) : Prop :=
  (p.mapTotals totalNumber).observeNotice c.notice = .ok ((p.answer c).1.mapTotals totalNumber)

/-- A total that is too large is not read. -/
theorem totalOf_of_not_isFinite {total : Nat} (h : (totalNumber total).isFinite = false) :
    totalOf (.int total) = .error (.range .integer) := by
  have hnone : Quantity.ofInt? (R := Binary64) (total : Int) = none := by
    rw [Binary64.ofInt?_eq]
    exact if_neg fun e => Bool.false_ne_true (h.symm.trans e)
  rw [totalOf, Mixed.quantity, hnone]
  rfl

/-- An end is taken if the rows can be shown once more. -/
theorem takes_stop_iff (p : Progress Nat) : p.Takes .stop ↔ (p.answer .stop).2 = none := by
  have hnotice : (p.mapTotals totalNumber).observeNotice (ProgressCall.notice .stop) =
      (p.mapTotals totalNumber).stop.mapError .markup := rfl
  rw [Takes, hnotice, answer, stop, stop, fault?_mapTotals]
  cases p.fault? with
  | none => exact iff_of_true rfl rfl
  | some fault => exact iff_of_false (fun h => by cases h) (Option.some_ne_none fault)

/-- An event is taken if it has an effect without a fault, and if its total is not too large where
this is read. -/
theorem takes_event_iff (p : Progress Nat) (e : EvaluationEvent Binary64) :
    p.Takes (.event e) ↔ (p.observe e).2 = none ∧
      (p.isDisabled = true ∨
        ∀ a total, e = .evaluationStarted a total → (totalNumber total).isFinite = true) := by
  by_cases hfinite :
      ∀ a total, e = .evaluationStarted a total → (totalNumber total).isFinite = true
  · have hnotice := observeNotice_notice p e hfinite
    refine Iff.trans ?_ (iff_self_and.2 fun _ => Or.inr hfinite)
    rw [Takes, ProgressCall.notice, hnotice, answer]
    rcases p.observe e with ⟨p', _ | fault⟩
    · exact iff_of_true rfl rfl
    · exact iff_of_false (fun h => by cases h) (Option.some_ne_none fault)
  · simp only [not_forall] at hfinite
    obtain ⟨a, total, rfl, hfinite⟩ := hfinite
    rw [Bool.not_eq_true] at hfinite
    have hnotice : (p.mapTotals totalNumber).observeNotice
        (EvaluationEvent.notice (.evaluationStarted a total)) =
          (p.mapTotals totalNumber).beginOf (.text a) (.int total) := rfl
    rw [Takes, ProgressCall.notice, hnotice, answer, observe, beginOf]
    cases hdisabled : p.isDisabled with
    | true =>
      have hmap : (p.mapTotals totalNumber).isDisabled = true := hdisabled
      rw [if_pos hmap, begin_of_isDisabled hdisabled]
      exact iff_of_true rfl ⟨rfl, .inl rfl⟩
    | false =>
      have hmap : ¬(p.mapTotals totalNumber).isDisabled = true := fun e =>
        Bool.false_ne_true (hdisabled.symm.trans e)
      rw [if_neg hmap, totalOf_of_not_isFinite hfinite]
      refine iff_of_false (fun h => by cases h) fun h => ?_
      rcases h.2 with h | h
      · cases h
      · exact Bool.false_ne_true (hfinite.symm.trans (h a total rfl))

/-! ### Rows that can be shown -/

/-- The events since the last stop. -/
def recent (calls : List ProgressCall) : List (EvaluationEvent Binary64) :=
  calls.foldl (fun events c =>
    match c with
    | .event e => events ++ [e]
    | .stop => []) []

theorem recent_append_event (calls : List ProgressCall) (e : EvaluationEvent Binary64) :
    recent (calls ++ [.event e]) = recent calls ++ [e] := List.foldl_append

theorem recent_append_stop (calls : List ProgressCall) : recent (calls ++ [.stop]) = [] :=
  List.foldl_append

/-- The events since the last stop end all events. -/
theorem recent_suffix (calls : List ProgressCall) :
    recent calls <:+ calls.filterMap ProgressCall.event? := by
  induction calls using List.reverseRecOn with
  | nil => exact List.suffix_rfl
  | append_singleton calls c ih =>
    rw [List.filterMap_append]
    cases c with
    | event e =>
      obtain ⟨earlier, hearlier⟩ := ih
      rw [recent_append_event, ← hearlier, List.append_assoc]
      exact List.suffix_append ..
    | stop =>
      rw [recent_append_stop]
      exact List.nil_suffix

/-- The label of the row that an approach gets after events since the last stop: its colour goes by
the number of approaches that have rows already. -/
def labelAfter (isColoured : Bool) (events : List (EvaluationEvent Binary64)) (a : Text) : Value :=
  rowLabel isColoured (.text a) (events.filterMap EvaluationEvent.started?).eraseDups.length

/-- The row of an approach that is started can be shown, and its total is not too large. -/
def Fits (isColoured : Bool) (before : List ProgressCall) : ProgressCall → Prop
  | .event (.evaluationStarted a total) =>
    Tag.fault? (labelAfter isColoured (recent before) a).shown = none ∧
      (totalNumber total).isFinite = true
  | _ => True

theorem fits_of_not_started (isColoured : Bool) (before : List ProgressCall) {c : ProgressCall}
    (h : c.started? = none) : Fits isColoured before c := by
  cases c with
  | stop => trivial
  | event e =>
    cases e with
    | evaluationStarted => cases h
    | _ => trivial

theorem length_insert_text {α : Type} (t : Text) (part : α) (parts : List (Value × α)) :
    (Value.insert (.text t) part parts).length =
      if Value.find? (.text t) parts = none then parts.length + 1 else parts.length := by
  induction parts with
  | nil => rfl
  | cons entry rest ih =>
    obtain ⟨k, found⟩ := entry
    rw [Value.insert, Value.find?]
    by_cases hkey : k.sameKey (.text t) = true
    · rw [if_pos hkey, if_pos hkey, if_neg (Option.some_ne_none found)]
      rfl
    · rw [if_neg hkey, if_neg hkey, List.length_cons, ih]
      split <;> rfl

/-- Rows can be shown after they are brought up to date if they can be before. -/
theorem fault?_update {T : Type} (approach : Value) (status : Option Text) (p : Progress T) :
    (p.update approach status).fault? = p.fault? := by
  rw [fault?_eq, fault?_eq, labels_update]

theorem mode_update {T : Type} (approach : Value) (status : Option Text) (p : Progress T) :
    (p.update approach status).isDisabled = p.isDisabled ∧
      (p.update approach status).isColoured = p.isColoured := by
  rw [update_eq]
  exact ⟨rfl, rfl⟩

/-- No call changes whether and how rows are shown. -/
theorem mode_answer (p : Progress Nat) (c : ProgressCall) :
    (p.answer c).1.isDisabled = p.isDisabled ∧ (p.answer c).1.isColoured = p.isColoured := by
  cases c with
  | stop =>
    rw [answer, stop]
    cases p.fault? <;> exact ⟨rfl, rfl⟩
  | event e =>
    rw [answer]
    rcases observe_cases p e with ⟨a, total, rfl⟩ | ⟨-, -, hsame | ⟨counts, a, status, hupdate⟩⟩
    · rw [observe, begin, addRow]
      split
      · exact ⟨rfl, rfl⟩
      · split <;> exact ⟨rfl, rfl⟩
    · rw [hsame]
      exact ⟨rfl, rfl⟩
    · rw [hupdate]
      exact mode_update ..

theorem mode_after (isDisabled isColoured : Bool) (calls : List ProgressCall) :
    (after isDisabled isColoured calls).isDisabled = isDisabled ∧
      (after isDisabled isColoured calls).isColoured = isColoured := by
  refine after_induction
    (P := fun p => p.isDisabled = isDisabled ∧ p.isColoured = isColoured) ⟨rfl, rfl⟩ ?_ calls
  rintro p c ⟨hdisabled, hcoloured⟩
  exact ⟨(mode_answer p c).1.trans hdisabled, (mode_answer p c).2.trans hcoloured⟩

/-- Nothing keeps an observer that shows nothing from taking a call. -/
theorem answer_of_isDisabled {p : Progress Nat} (h : p.isDisabled = true) (hrows : p.rows = [])
    (c : ProgressCall) : (p.answer c).2 = none ∧ (p.answer c).1.rows = [] := by
  cases c with
  | stop =>
    rw [answer, stop, fault?, hrows]
    exact ⟨rfl, rfl⟩
  | event e =>
    refine ⟨?_, (rows_observe h e).trans hrows⟩
    rcases observe_cases p e with ⟨a, total, rfl⟩ | ⟨-, hfault, -⟩
    · rw [answer, observe, begin_of_isDisabled h]
    · exact hfault

theorem rows_after_of_isDisabled (isColoured : Bool) (calls : List ProgressCall) :
    (after true isColoured calls).rows = [] := by
  refine (after_induction (P := fun p => p.isDisabled = true ∧ p.rows = []) ⟨rfl, rfl⟩ ?_ calls).2
  rintro p c ⟨hdisabled, hrows⟩
  exact ⟨(mode_answer p c).1.trans hdisabled, (answer_of_isDisabled hdisabled hrows c).2⟩

/-- A row that can be shown is added, and belongs to its approach. -/
theorem begin_eq {p : Progress Nat} (hshown : p.isDisabled = false) {a : Text} {total : Nat}
    (h : (p.begin (.text a) total).2 = none) :
    (p.begin (.text a) total).1 =
      { p with
        counts := Value.insert (.text a) 0 p.counts
        rows := p.rows ++ [⟨rowLabel p.isColoured (.text a) p.latest.length, total, 0, []⟩]
        latest := Value.insert (.text a) p.rows.length p.latest } := by
  have hnot : ¬p.isDisabled = true := Bool.eq_false_iff.1 hshown
  rw [begin, if_neg hnot, addRow] at h ⊢
  split at h
  · cases h
  · rfl

/-- Where the other rows can be shown, a new one can be if its tags fit. -/
theorem begin_fault {p : Progress Nat} (hshown : p.isDisabled = false) (hrows : p.fault? = none)
    (a : Text) (total : Nat) :
    (p.begin (.text a) total).2 =
      Tag.fault? (rowLabel p.isColoured (.text a) p.latest.length).shown := by
  have hnew (label : Value) : ((p.restart (.text a)).withRow label total).fault? =
      Tag.fault? label.shown := by
    rw [fault?] at hrows ⊢
    rw [withRow, restart, List.findSome?_append, hrows, Option.none_or, List.findSome?_cons]
    cases Tag.fault? label.shown <;> rfl
  rw [begin, hshown, if_neg Bool.false_ne_true, addRow]
  have hlabel := hnew (rowLabel p.isColoured (.text a) p.latest.length)
  split <;> rename_i hfault <;> exact hfault.symm.trans hlabel

/-- What an observer has after events since the last stop, as long as all its rows can be shown: the
approaches that were started have rows, and no others have. -/
structure IsTidy (events : List (EvaluationEvent Binary64)) (p : Progress Nat) : Prop where
  find?_latest : ∀ a, Value.find? (.text a) p.latest = none ↔
    a ∉ events.filterMap EvaluationEvent.started?
  length_latest : p.latest.length = (events.filterMap EvaluationEvent.started?).eraseDups.length
  fault?_eq : p.fault? = none

variable {events : List (EvaluationEvent Binary64)} {p : Progress Nat}

theorem isTidy_start (isColoured : Bool) : IsTidy [] (start false isColoured) where
  find?_latest _ := iff_of_true rfl List.not_mem_nil
  length_latest := rfl
  fault?_eq := rfl

/-- Taking an event keeps an observer tidy. -/
theorem IsTidy.observe (h : IsTidy events p) (hshown : p.isDisabled = false)
    {e : EvaluationEvent Binary64} (hfault : (p.observe e).2 = none) :
    IsTidy (events ++ [e]) (p.observe e).1 := by
  have hsame {p' : Progress Nat} (he : e.started? = none) (hlatest : p'.latest = p.latest)
      (hfault : p'.fault? = p.fault?) : IsTidy (events ++ [e]) p' := by
    have hstarted : (events ++ [e]).filterMap EvaluationEvent.started? =
        events.filterMap EvaluationEvent.started? := by
      rw [List.filterMap_append, List.filterMap_cons_none he, List.filterMap_nil, List.append_nil]
    exact ⟨by rw [hlatest, hstarted]; exact h.find?_latest,
      by rw [hlatest, hstarted]; exact h.length_latest, hfault.trans h.fault?_eq⟩
  rcases observe_cases p e with ⟨a, total, rfl⟩ | ⟨he, -, heq | ⟨counts, a, status, heq⟩⟩
  · have hstarted : (events ++ [EvaluationEvent.evaluationStarted a total]).filterMap
        EvaluationEvent.started? = events.filterMap EvaluationEvent.started? ++ [a] :=
      List.filterMap_append
    have hbegin := begin_fault hshown h.fault?_eq a total
    rw [Progress.observe] at hfault ⊢
    rw [begin_eq hshown hfault]
    refine ⟨fun b => ?_, ?_, ?_⟩
    · dsimp only
      rw [Value.find?_insert_text, hstarted, List.mem_append, List.mem_singleton, not_or]
      by_cases hname : a = b
      · rw [if_pos hname]
        exact iff_of_false (Option.some_ne_none _) fun hnot => hnot.2 hname.symm
      · rw [if_neg hname, h.find?_latest]
        exact (and_iff_left fun e => hname e.symm).symm
    · dsimp only
      rw [length_insert_text, hstarted, h.length_latest]
      by_cases hmem : a ∈ events.filterMap EvaluationEvent.started?
      · rw [eraseDups_append_of_mem hmem, if_neg fun hnone => (h.find?_latest a).1 hnone hmem]
      · rw [eraseDups_append_of_notMem hmem, if_pos ((h.find?_latest a).2 hmem),
          List.length_append, List.length_singleton]
    · have hrows := h.fault?_eq
      rw [fault?] at hrows ⊢
      dsimp only
      rw [List.findSome?_append, hrows, Option.none_or, List.findSome?_cons, ← hbegin, hfault]
      rfl
  · rw [heq]
    exact hsame he rfl rfl
  · rw [heq]
    exact hsame he (latest_update ..) (fault?_update ..)

/-- Taking a call keeps an observer tidy. -/
theorem IsTidy.answer {calls : List ProgressCall} (h : IsTidy (recent calls) p)
    (hshown : p.isDisabled = false) {c : ProgressCall} (hfault : (p.answer c).2 = none) :
    IsTidy (recent (calls ++ [c])) (p.answer c).1 := by
  cases c with
  | event e =>
    rw [recent_append_event]
    exact h.observe hshown hfault
  | stop =>
    rw [recent_append_stop, Progress.answer, stop, h.fault?_eq]
    exact ⟨fun _ => iff_of_true rfl List.not_mem_nil, rfl, rfl⟩

/-- A tidy observer takes a call if the row of the approach that it starts, if any, fits. -/
theorem IsTidy.takes_iff {calls : List ProgressCall} (h : IsTidy (recent calls) p)
    (hshown : p.isDisabled = false) (c : ProgressCall) :
    p.Takes c ↔ Fits p.isColoured calls c := by
  cases c with
  | stop =>
    rw [takes_stop_iff, Progress.answer, stop, h.fault?_eq]
    exact iff_of_true rfl trivial
  | event e =>
    have hread (P : Prop) : p.isDisabled = true ∨ P ↔ P :=
      or_iff_right (Bool.eq_false_iff.1 hshown)
    rw [takes_event_iff, hread]
    rcases observe_cases p e with ⟨a, total, rfl⟩ | ⟨hstarted, hfault, -⟩
    · rw [Progress.observe, begin_fault hshown h.fault?_eq, h.length_latest, Fits, labelAfter]
      refine and_congr_right fun _ => ⟨fun hall => hall a total rfl, ?_⟩
      rintro hfinite b total' heq
      obtain ⟨rfl, rfl⟩ := EvaluationEvent.evaluationStarted.inj heq
      exact hfinite
    · refine iff_of_true ⟨hfault, ?_⟩ (fits_of_not_started _ calls hstarted)
      rintro a total rfl
      cases hstarted

/-- An observer that takes all calls stays tidy. -/
theorem isTidy_after {isColoured : Bool} {calls : List ProgressCall}
    (h : AtEach (fun before c => (after false isColoured before).Takes c) calls) :
    IsTidy (recent calls) (after false isColoured calls) := by
  induction calls using List.reverseRecOn with
  | nil => exact isTidy_start isColoured
  | append_singleton calls c ih =>
    obtain ⟨hcalls, hc⟩ := atEach_append_singleton.1 h
    have hshown := (mode_after false isColoured calls).1
    have hfault : ((after false isColoured calls).answer c).2 = none := by
      cases c with
      | stop => exact (takes_stop_iff _).1 hc
      | event e => exact ((takes_event_iff _ e).1 hc).1
    rw [after_append_singleton]
    exact (ih hcalls).answer hshown hfault

/-- **Calls that are taken.** All calls are taken if and only if nothing is shown, or the row of
each approach that is started can be shown and its total is not too large. -/
theorem takes_all_iff (isDisabled isColoured : Bool) (calls : List ProgressCall) :
    AtEach (fun before c => (after isDisabled isColoured before).Takes c) calls ↔
      isDisabled = true ∨ AtEach (Fits isColoured) calls := by
  cases isDisabled with
  | true =>
    refine iff_of_true (fun before c later _ => ?_) (.inl rfl)
    have hdisabled := (mode_after true isColoured before).1
    have hfault := answer_of_isDisabled hdisabled (rows_after_of_isDisabled isColoured before) c
    cases c with
    | stop => exact (takes_stop_iff _).2 hfault.1
    | event e => exact (takes_event_iff _ e).2 ⟨hfault.1, .inl hdisabled⟩
  | false =>
    rw [or_iff_right Bool.false_ne_true]
    induction calls using List.reverseRecOn with
    | nil => exact iff_of_true (atEach_nil _) (atEach_nil _)
    | append_singleton calls c ih =>
      rw [atEach_append_singleton, atEach_append_singleton, ← ih]
      refine and_congr_right fun hcalls => ?_
      obtain ⟨hshown, hcoloured⟩ := mode_after false isColoured calls
      have htakes := (isTidy_after hcalls).takes_iff hshown c
      rwa [hcoloured] at htakes

end Progress

end TypeBench
