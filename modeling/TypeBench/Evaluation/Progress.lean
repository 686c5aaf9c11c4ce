import TypeBench.Evaluation.Event
import TypeBench.Text.Numeral

/-!
# Progress of evaluations

An observer counts the completed test cases of each approach, and keeps a row for each evaluation
that was started. A row follows its approach until the approach is started again. Rows are shown as
marked-up text, which fails when the tags of a label do not fit. A notice may name an approach by
any value. The total of a row is only shown, so it is of any type: a count for an event, and a
number for a notice.

## Main definitions

* `ProgressRow`, `Progress`: a row, and the state of the observer.
* `Progress.observe`, `Progress.stop`: the state after an event, and after the end.
* `Progress.observeNotice`: the state after a notice, or what is wrong with the notice.
* `Progress.completedFor`: the number of completed test cases of an approach.

## Main results

* `Progress.observeNotice_notice`: the notice of an event has the effect of the event.
-/

namespace TypeBench

/-- A row for an evaluation. -/
structure ProgressRow (T : Type) where
  label : Value
  total : T
  completed : Nat
  status : Text

/-- The state of a progress observer. -/
structure Progress (T : Type) where
  /-- Nothing is shown. -/
  isDisabled : Bool
  /-- Rows are shown in colour. -/
  isColoured : Bool
  /-- The completed test cases of each approach that was started. -/
  counts : List (Value × Nat)
  rows : List (ProgressRow T)
  /-- The index of the latest row of each approach. -/
  latest : List (Value × Nat)

namespace Progress

variable {T : Type}

/-- An observer before any event. -/
def start (isDisabled isColoured : Bool) : Progress T := ⟨isDisabled, isColoured, [], [], []⟩

/-- The number of completed test cases of an approach, zero if it was never started. -/
def completedFor (p : Progress T) (approach : Value) : Nat :=
  (Value.find? approach p.counts).getD 0

/-- The colours of rows, in turn. -/
def colours : List String := ["cyan", "green", "yellow", "magenta", "blue"]

/-- The label of a row, with the colour of its place. -/
def rowLabel (isColoured : Bool) (approach : Value) (place : Nat) : Value :=
  if isColoured then
    let colour := Text.ofString (colours.getD (place % colours.length) "")
    .text ("[" ++ colour ++ "]" ++ approach.shown ++ "[/" ++ colour ++ "]")
  else approach

/-- The rows with the latest row of an approach brought up to date. -/
def update (approach : Value) (status : Option Text) (p : Progress T) : Progress T :=
  if p.isDisabled then p
  else
    match Value.find? approach p.latest with
    | none => p
    | some index =>
      { p with
        rows := p.rows.modify index fun row =>
          { row with completed := p.completedFor approach, status := status.getD row.status } }

/-- What keeps the rows from being shown: the first label with faulty tags. -/
def fault? (p : Progress T) : Option Markup.Tag.Fault :=
  p.rows.findSome? fun row => Markup.Tag.fault? row.label.shown

/-- The state with a row at the end. -/
def withRow (label : Value) (total : T) (p : Progress T) : Progress T :=
  { p with rows := p.rows ++ [⟨label, total, 0, []⟩] }

/-- The state with a row for an approach. All rows are shown anew then; if they cannot be, the new
row belongs to no approach. -/
def addRow (approach : Value) (total : T) (p : Progress T) :
    Progress T × Option Markup.Tag.Fault :=
  let shown := p.withRow (rowLabel p.isColoured approach p.latest.length) total
  match shown.fault? with
  | some fault => (shown, some fault)
  | none => ({ shown with latest := Value.insert approach p.rows.length p.latest }, none)

/-- The state with the count of an approach set back. -/
def restart (approach : Value) (p : Progress T) : Progress T :=
  { p with counts := Value.insert approach 0 p.counts }

/-- The state after an evaluation is started. -/
def begin (approach : Value) (total : T) (p : Progress T) :
    Progress T × Option Markup.Tag.Fault :=
  if p.isDisabled then (p.restart approach, none) else (p.restart approach).addRow approach total

/-- The state after a test case is completed. An approach that was not started is not counted. -/
def advance (approach : Value) (p : Progress T) : Progress T :=
  let counted := match Value.find? approach p.counts with
    | some n => { p with counts := Value.insert approach (n + 1) p.counts }
    | none => p
  counted.update approach none

/-- The status of an approach that is evaluated. -/
def accuracyStatus (accuracy : Binary64) : Text := "accuracy " ++ accuracy.percent

/-- The status of an approach that failed. -/
def failedStatus : Text := "[red]failed[/red]"

/-- The state after an event, and what keeps the rows from being shown if they are. -/
def observe (p : Progress Nat) :
    EvaluationEvent Binary64 → Progress Nat × Option Markup.Tag.Fault
  | .evaluationStarted approach total => p.begin (.text approach) total
  | .caseCompleted approach _ _ => (p.advance (.text approach), none)
  | .evaluationCompleted approach accuracy _ _ _ =>
    (p.update (.text approach) (some (accuracyStatus accuracy)), none)
  | .evaluationFailed approach _ => (p.update (.text approach) (some failedStatus), none)
  | .registered .. | .caseStarted .. | .disposeFailed .. => (p, none)

theorem isDisabled_update (approach : Value) (status : Option Text) (p : Progress T) :
    (p.update approach status).isDisabled = p.isDisabled := by
  simp only [update]
  split
  · rfl
  · split <;> rfl

theorem isDisabled_advance (approach : Value) (p : Progress T) :
    (p.advance approach).isDisabled = p.isDisabled := by
  simp only [advance, isDisabled_update]
  split <;> rfl

theorem begin_of_isDisabled {p : Progress T} (h : p.isDisabled) (approach : Value) (total : T) :
    p.begin approach total = (p.restart approach, none) := if_pos h

theorem isDisabled_observe {p : Progress Nat} (h : p.isDisabled)
    (event : EvaluationEvent Binary64) : (p.observe event).1.isDisabled := by
  cases event <;>
    simp [observe, isDisabled_update, isDisabled_advance, begin_of_isDisabled, restart, h]

/-- The state after events, whatever kept the rows from being shown. -/
def observeAll (p : Progress Nat) (events : List (EvaluationEvent Binary64)) : Progress Nat :=
  events.foldl (fun p event => (p.observe event).1) p

theorem isDisabled_observeAll {p : Progress Nat} (h : p.isDisabled)
    (events : List (EvaluationEvent Binary64)) : (p.observeAll events).isDisabled := by
  induction events generalizing p with
  | nil => exact h
  | cons event rest ih => exact ih (isDisabled_observe h event)

/-- The state after the end: the rows are shown once more and taken away, and the counts are
kept. -/
def stop (p : Progress T) : Except Markup.Tag.Fault (Progress T) :=
  match p.fault? with
  | some fault => .error fault
  | none => .ok { p with rows := [], latest := [] }

/-! ### Notices -/

/-- The state with its totals replaced. -/
def mapTotals {U : Type} (f : T → U) (p : Progress T) : Progress U where
  isDisabled := p.isDisabled
  isColoured := p.isColoured
  counts := p.counts
  rows := p.rows.map fun row => ⟨row.label, f row.total, row.completed, row.status⟩
  latest := p.latest

/-- The listener that shows progress: it can be stopped and asked, too. -/
def listener : Listener where
  name := "ProgressEvaluationObserver"
  kinds := EvaluationEvent.kinds ++ [⟨"stop", []⟩, ⟨"completed_for", ["approach"]⟩]

/-- The total that a value gives. -/
def totalOf (value : Value) : Except NoticeFault Binary64 :=
  let read (number : Option Binary64) : Except NoticeFault Binary64 :=
    match number with
    | some x => .ok x
    | none => .error (.notTotal value)
  match value with
  | .float x => .ok x
  | .int i => (Mixed.quantity (.whole i)).mapError .range
  | .bool b => .ok (if b then 1 else 0)
  | .text t => read t.number?
  | .bytes bytes => read (Text.numberOfBytes? bytes)
  | _ => .error (.notTotal value)

/-- The status that a value gives for an accuracy. A date has a form of its own for a share, and no
number in it. -/
def statusOf (value : Value) : Except NoticeFault Text :=
  match value with
  | .float x => .ok (accuracyStatus x)
  | .int i => ((Mixed.quantity (.whole i)).mapError .range).map accuracyStatus
  | .bool b => .ok (accuracyStatus (if b then 1 else 0))
  | .date _ | .moment _ => .ok "accuracy .2%"
  | _ => .error (.notShare value)

mutual

/-- The kind of the value that keeps a value from being a name, if one does: sequences that can
change are no names. -/
def unnameable? : Value → Option String
  | .list items => some (Value.list items).kindName
  | .map entries => some (Value.map entries).kindName
  | .tuple items => unnameableAmong? items
  | _ => none

/-- The kind of the first value in a list that is no name. -/
def unnameableAmong? : List Value → Option String
  | [] => none
  | item :: rest =>
    match unnameable? item with
    | some kind => some kind
    | none => unnameableAmong? rest

end

/-- A value that is a name. -/
def nameOf (value : Value) : Except NoticeFault Value :=
  match unnameable? value with
  | some kind => .error (.notName kind)
  | none => .ok value

/-- The state after the notice that an evaluation is started. An infinite total
fills no row. -/
def beginOf (p : Progress Binary64) (name value : Value) :
    Except NoticeFault (Progress Binary64) :=
  if p.isDisabled then .ok (p.restart name)
  else do
    let total ← totalOf value
    match p.begin name total with
    | (_, some fault) => .error (.markup fault)
    | (p, none) => if total.isFinite then return p else .error (.notFinite total)

/-- The state with a status for the approach that a value names; nothing is looked up where nothing
is shown. -/
def updateOf (p : Progress Binary64) (approach : Value) (status : Text) :
    Except NoticeFault (Progress Binary64) :=
  if p.isDisabled then .ok p else do return p.update (← nameOf approach) (some status)

/-- The state after a notice. -/
def observeNotice (p : Progress Binary64) (notice : Notice) :
    Except NoticeFault (Progress Binary64) := do
  listener.check notice
  let approach := notice.field "approach"
  match notice.name with
  | "evaluation_started" => p.beginOf (← nameOf approach) (notice.field "total_test_cases")
  | "test_case_completed" => return p.advance (← nameOf approach)
  | "evaluation_completed" => p.updateOf approach (← statusOf (notice.field "accuracy"))
  | "evaluation_failed" => p.updateOf approach failedStatus
  | "completed_for" => (nameOf approach).map fun _ => p
  | "stop" => p.stop.mapError .markup
  | _ => return p

/-- The number of a total. -/
def totalNumber (total : Nat) : Binary64 := Binary64.ofInt total

theorem update_mapTotals {U : Type} (f : T → U) (approach : Value) (status : Option Text)
    (p : Progress T) :
    (p.mapTotals f).update approach status = (p.update approach status).mapTotals f := by
  cases hdisabled : p.isDisabled with
  | true => simp [update, mapTotals, hdisabled]
  | false =>
    cases h : Value.find? approach p.latest with
    | none => simp [update, mapTotals, hdisabled, h]
    | some index =>
      simp only [update, mapTotals, hdisabled, h, Bool.false_eq_true, if_false,
        Progress.mk.injEq, true_and, and_true]
      refine List.ext_getElem? fun i => ?_
      by_cases hi : index = i <;>
        simp [List.getElem?_map, hi, completedFor, Function.comp_def]

theorem advance_mapTotals {U : Type} (f : T → U) (approach : Value) (p : Progress T) :
    (p.mapTotals f).advance approach = (p.advance approach).mapTotals f := by
  cases h : Value.find? approach p.counts with
  | none =>
    have hmap : Value.find? approach (p.mapTotals f).counts = none := h
    simp only [advance, h, hmap, update_mapTotals]
  | some n =>
    have hmap : Value.find? approach (p.mapTotals f).counts = some n := h
    simp only [advance, h, hmap]
    exact update_mapTotals f approach none
      { p with counts := Value.insert approach (n + 1) p.counts }

theorem fault?_mapTotals {U : Type} (f : T → U) (p : Progress T) :
    (p.mapTotals f).fault? = p.fault? := by
  simp [fault?, mapTotals, List.findSome?_map, Function.comp_def]

theorem withRow_mapTotals {U : Type} (f : T → U) (label : Value) (total : T) (p : Progress T) :
    (p.mapTotals f).withRow label (f total) = (p.withRow label total).mapTotals f := by
  simp [withRow, mapTotals]

theorem addRow_mapTotals {U : Type} (f : T → U) (approach : Value) (total : T) (p : Progress T) :
    (p.mapTotals f).addRow approach (f total) =
      ((p.addRow approach total).1.mapTotals f, (p.addRow approach total).2) := by
  have hlabel : rowLabel (p.mapTotals f).isColoured approach (p.mapTotals f).latest.length =
      rowLabel p.isColoured approach p.latest.length := rfl
  rw [addRow, addRow, hlabel, withRow_mapTotals, fault?_mapTotals]
  cases (p.withRow (rowLabel p.isColoured approach p.latest.length) total).fault? with
  | none => simp [mapTotals]
  | some fault => rfl

theorem begin_mapTotals {U : Type} (f : T → U) (approach : Value) (total : T) (p : Progress T) :
    (p.mapTotals f).begin approach (f total) =
      ((p.begin approach total).1.mapTotals f, (p.begin approach total).2) := by
  cases h : p.isDisabled with
  | true =>
    have hmap : (p.mapTotals f).isDisabled = true := h
    simp only [begin, h, hmap, if_true]
    rfl
  | false =>
    have hmap : (p.mapTotals f).isDisabled = false := h
    simp only [begin, h, hmap, Bool.false_eq_true, if_false]
    exact addRow_mapTotals f approach total (p.restart approach)

theorem totalOf_natural {total : Nat} (h : (totalNumber total).isFinite) :
    totalOf (.int total) = .ok (totalNumber total) := by
  have hfinite : Quantity.ofInt? (total : Int) = some (totalNumber total) := by
    rw [Binary64.ofInt?_eq]
    exact Binary64.finite?_of_isFinite h
  rw [totalOf, Mixed.quantity_whole hfinite]
  rfl

theorem beginOf_mapTotals (approach : Value) {total : Nat} (h : (totalNumber total).isFinite)
    (p : Progress Nat) :
    (p.mapTotals totalNumber).beginOf approach (.int total) =
      match p.begin approach total with
      | (after, none) => .ok (after.mapTotals totalNumber)
      | (_, some fault) => .error (.markup fault) := by
  have hbegin := begin_mapTotals totalNumber approach total p
  cases hdisabled : p.isDisabled with
  | true =>
    have hmap : (p.mapTotals totalNumber).isDisabled = true := hdisabled
    simp only [beginOf, hmap, if_true, begin, hdisabled]
    rfl
  | false =>
    have hmap : (p.mapTotals totalNumber).isDisabled = false := hdisabled
    rw [beginOf, totalOf_natural h]
    simp only [hmap, Bool.false_eq_true, if_false, bind, Except.bind, hbegin]
    cases p.begin approach total with
    | mk after fault? => cases fault? <;> simp [h, pure, Except.pure]

theorem updateOf_mapTotals (approach status : Text) (p : Progress Nat) :
    (p.mapTotals totalNumber).updateOf (.text approach) status =
      .ok ((p.update (.text approach) (some status)).mapTotals totalNumber) := by
  rw [← update_mapTotals]
  cases h : (p.mapTotals totalNumber).isDisabled with
  | true => simp [updateOf, update, h]
  | false => simp [updateOf, h, nameOf, unnameable?, bind, Except.bind, pure,
      Except.pure]

/-- The notice of an event has the effect of the event, as long as its total is a finite number. -/
theorem observeNotice_notice (p : Progress Nat) (event : EvaluationEvent Binary64)
    (hfinite : ∀ approach total,
      event = .evaluationStarted approach total → (totalNumber total).isFinite) :
    (p.mapTotals totalNumber).observeNotice event.notice =
      match p.observe event with
      | (after, none) => .ok (after.mapTotals totalNumber)
      | (_, some fault) => .error (.markup fault) := by
  cases event with
  | registered approach replaced => rfl
  | evaluationStarted approach total =>
    exact beginOf_mapTotals (.text approach) (hfinite approach total rfl) p
  | caseStarted approach id name => rfl
  | caseCompleted approach id predictions =>
    exact congrArg Except.ok (advance_mapTotals totalNumber (.text approach) p)
  | evaluationCompleted approach accuracy correct total time =>
    exact updateOf_mapTotals approach (accuracyStatus accuracy) p
  | evaluationFailed approach reason => exact updateOf_mapTotals approach failedStatus p
  | disposeFailed approach reason => rfl

end Progress

end TypeBench
