import TypeBench.Command.Watch
import TypeBench.Proofs.Evaluation.Disposal
import TypeBench.Proofs.Report.LogLines

/-!
# What is seen of evaluations

The progress that is shown on a console has a row for each evaluation that was started, with the
name of its approach as the label, and no other event adds a row. So whether the rows can be shown
is a matter of the tags in the names alone. Where the log is no console text nothing is shown.

## Main definitions

* `Progress.Shows`: the names that the rows of a progress show.

## Main results

* `Progress.Shows.observeAll`: after events the rows show the approaches that were started.
* `LogFormat.watchEnd_eq_ok`, `LogFormat.watchEnd_ne_ok`: when the watch ends well.
* `LogFormat.hasSurrogate_of_watch`: what watching fails with, where the tags of all names fit.
-/

namespace TypeBench

open Markup

/-! ### Rows -/

namespace Progress

variable {T : Type}

/-- Bringing an approach up to date changes nothing but rows. -/
theorem update_eq (approach : Value) (status : Option Text) (p : Progress T) :
    p.update approach status = { p with rows := (p.update approach status).rows } := by
  rw [update]
  split
  · rfl
  · split <;> rfl

/-- Bringing an approach up to date changes no label. -/
theorem labels_update (approach : Value) (status : Option Text) (p : Progress T) :
    (p.update approach status).rows.map (·.label) = p.rows.map (·.label) := by
  rw [update]
  split
  · rfl
  · split
    · rfl
    · refine List.ext_getElem? fun i => ?_
      rw [List.getElem?_map, List.getElem?_map, List.getElem?_modify]
      cases p.rows[i]? with
      | none => rfl
      | some row =>
        dsimp only [Option.map_some]
        split <;> rfl

/-- What keeps the rows from being shown depends on their labels alone. -/
theorem fault?_eq (p : Progress T) :
    p.fault? = (p.rows.map (·.label)).findSome? fun label => Tag.fault? label.shown := by
  rw [List.findSome?_map]
  rfl

/-- The rows of a progress that is shown without colours have names as their labels. -/
structure Shows (names : List Text) (p : Progress T) : Prop where
  isDisabled : p.isDisabled = false
  isColoured : p.isColoured = false
  labels : p.rows.map (·.label) = names.map Value.text

variable {names : List Text} {p : Progress T}

theorem shows_start : (start (T := T) false false).Shows [] := ⟨rfl, rfl, rfl⟩

theorem Shows.update (h : p.Shows names) (approach : Value) (status : Option Text) :
    (p.update approach status).Shows names := by
  refine ⟨?_, ?_, (labels_update approach status p).trans h.labels⟩
  · rw [update_eq]
    exact h.isDisabled
  · rw [update_eq]
    exact h.isColoured

theorem Shows.advance (h : p.Shows names) (approach : Value) :
    (p.advance approach).Shows names := by
  rw [Progress.advance]
  split
  · rename_i n _
    have hcounted : Shows names { p with counts := Value.insert approach (n + 1) p.counts } :=
      ⟨h.isDisabled, h.isColoured, h.labels⟩
    exact hcounted.update approach none
  · exact h.update approach none

/-- What keeps the rows from being shown is the first name with faulty tags. -/
theorem Shows.fault?_eq (h : p.Shows names) : p.fault? = names.findSome? Tag.fault? := by
  rw [Progress.fault?_eq, h.labels, List.findSome?_map]
  rfl

/-- A row is added even if the rows cannot be shown then. -/
theorem Shows.addRow (h : p.Shows names) (approach : Text) (total : T) :
    (p.addRow (.text approach) total).1.Shows (names ++ [approach]) ∧
      (p.addRow (.text approach) total).2 = (names ++ [approach]).findSome? Tag.fault? := by
  have hlabel : rowLabel p.isColoured (.text approach) p.latest.length = .text approach := by
    rw [rowLabel, h.isColoured]
    rfl
  have hrow : (p.withRow (.text approach) total).Shows (names ++ [approach]) := by
    refine ⟨h.isDisabled, h.isColoured, ?_⟩
    rw [withRow, List.map_append, List.map_append, h.labels]
    rfl
  rw [Progress.addRow, hlabel, ← hrow.fault?_eq]
  cases (p.withRow (.text approach) total).fault? with
  | some fault => exact ⟨hrow, rfl⟩
  | none => exact ⟨⟨hrow.isDisabled, hrow.isColoured, hrow.labels⟩, rfl⟩

/-- The rows are shown when an evaluation is started, the new one among them. -/
theorem Shows.begin (h : p.Shows names) (approach : Text) (total : T) :
    (p.begin (.text approach) total).1.Shows (names ++ [approach]) ∧
      (p.begin (.text approach) total).2 = (names ++ [approach]).findSome? Tag.fault? := by
  have hrestart : (p.restart (.text approach)).Shows names :=
    ⟨h.isDisabled, h.isColoured, h.labels⟩
  rw [Progress.begin, h.isDisabled, if_neg Bool.false_ne_true]
  exact hrestart.addRow approach total

/-- Only the start of an evaluation adds a row. -/
theorem Shows.observe {p : Progress Nat} (h : p.Shows names) (event : EvaluationEvent Binary64) :
    (p.observe event).1.Shows (names ++ event.started?.toList) := by
  have hsame {p' : Progress Nat} (h' : p'.Shows names) : p'.Shows (names ++ []) := by
    rwa [List.append_nil]
  cases event with
  | evaluationStarted approach total => exact (h.begin approach total).1
  | caseCompleted approach _ _ => exact hsame (h.advance (.text approach))
  | evaluationCompleted approach accuracy _ _ _ => exact hsame (h.update (.text approach) _)
  | evaluationFailed approach _ => exact hsame (h.update (.text approach) _)
  | _ => exact hsame h

/-- After events the rows show the approaches that were started. -/
theorem Shows.observeAll {p : Progress Nat} (h : p.Shows names)
    (events : List (EvaluationEvent Binary64)) :
    (p.observeAll events).Shows (names ++ events.filterMap EvaluationEvent.started?) := by
  induction events generalizing p names with
  | nil => rwa [List.filterMap_nil, List.append_nil]
  | cons event rest ih =>
    have hrest := ih (h.observe event)
    rw [List.append_assoc] at hrest
    cases hevent : event.started? with
    | none =>
      rw [hevent] at hrest
      rwa [List.filterMap_cons_none hevent]
    | some name =>
      rw [hevent] at hrest
      rwa [List.filterMap_cons_some hevent]

/-- Nothing adds a row where nothing is shown. -/
theorem rows_observe {p : Progress Nat} (h : p.isDisabled) (event : EvaluationEvent Binary64) :
    (p.observe event).1.rows = p.rows := by
  have hupdate {p : Progress Nat} (h : p.isDisabled) (approach : Value) (status : Option Text) :
      (p.update approach status).rows = p.rows := by
    rw [Progress.update, if_pos h]
  cases event with
  | evaluationStarted approach total =>
    rw [observe, begin_of_isDisabled h]
    rfl
  | caseCompleted approach _ _ =>
    rw [observe, Progress.advance]
    split
    · rename_i n _
      have hcounted (counts : List (Value × Nat)) :
          ({ p with counts := counts }.update (.text approach) none).rows = p.rows :=
        hupdate (p := { p with counts := counts }) h _ _
      exact hcounted _
    · exact hupdate h _ _
  | evaluationCompleted approach accuracy _ _ _ => exact hupdate h _ _
  | evaluationFailed approach _ => exact hupdate h _ _
  | _ => rfl

theorem rows_observeAll {p : Progress Nat} (h : p.isDisabled)
    (events : List (EvaluationEvent Binary64)) : (p.observeAll events).rows = p.rows := by
  induction events generalizing p with
  | nil => rfl
  | cons event rest ih => exact (ih (isDisabled_observe h event)).trans (rows_observe h event)

end Progress

/-- What is said about lone surrogates has none. -/
theorem Utf8.SurrogateRun.hasSurrogate_message (run : SurrogateRun) :
    run.message.hasSurrogate = false := by
  rw [message]
  split <;> simp

/-! ### Watching -/

namespace LogFormat

variable {now : Timestamp} {told : List (EvaluationEvent Binary64)}

/-- The approaches whose start is shown: the line of the event has to be printed, too. -/
def startedNames (now : Timestamp) (told : List (EvaluationEvent Binary64)) : List Text :=
  (told.filter fun event => console.accepts now event.logLine).filterMap EvaluationEvent.started?

theorem startedNames_subset (now : Timestamp) (told : List (EvaluationEvent Binary64)) :
    startedNames now told ⊆ told.filterMap EvaluationEvent.started? :=
  ((List.filter_sublist).filterMap _).subset

theorem shows_progress (now : Timestamp) (told : List (EvaluationEvent Binary64)) :
    (console.progress now told).Shows (startedNames now told) :=
  Progress.shows_start.observeAll _

/-- Where the log is no console text the watch ends well. -/
theorem watchEnd_json (now : Timestamp) (told : List (EvaluationEvent Binary64)) :
    json.watchEnd now told = .ok () := by
  have hrows : (json.progress now told).rows = [] := Progress.rows_observeAll rfl _
  rw [watchEnd, Progress.fault?, hrows]
  rfl

/-- The watch ends well if the tags of the names of all approaches that were started fit. -/
theorem watchEnd_eq_ok {format : LogFormat}
    (h : format = console →
      ∀ name ∈ told.filterMap EvaluationEvent.started?, Tag.fault? name = none) :
    format.watchEnd now told = .ok () := by
  cases format with
  | json => exact watchEnd_json now told
  | console =>
    have hnone : (startedNames now told).findSome? Tag.fault? = none :=
      List.findSome?_eq_none_iff.2 fun name hname =>
        h rfl name (startedNames_subset now told hname)
    rw [watchEnd, (shows_progress now told).fault?_eq, hnone, shown]

/-- The watch does not end well on a console if the tags of a name do not fit. -/
theorem watchEnd_ne_ok {name : Text} (h : name ∈ told.filterMap EvaluationEvent.started?)
    (hname : name.hasSurrogate = false) (hfault : Tag.fault? name ≠ none) :
    console.watchEnd now told ≠ .ok () := by
  obtain ⟨event, hevent, hstarted⟩ := List.mem_filterMap.1 h
  have hplain : event.logLine.IsPlain := by
    cases event with
    | evaluationStarted approach total =>
      obtain rfl := Option.some.inj hstarted
      exact EvaluationEvent.isPlain_evaluationStarted hname total
    | _ => cases hstarted
  have hmem : name ∈ startedNames now told :=
    List.mem_filterMap.2 ⟨event, List.mem_filter.2 ⟨hevent, accepts_of_isPlain hplain now console⟩,
      hstarted⟩
  rw [watchEnd, (shows_progress now told).fault?_eq]
  cases hfound : (startedNames now told).findSome? Tag.fault? with
  | none => exact absurd (List.findSome?_eq_none_iff.1 hfound name hmem) hfault
  | some fault => exact nofun

/-- An event whose line can be printed is watched without a failure, unless it is a start. -/
theorem watch_of_isPlain {event : EvaluationEvent Binary64} (h : event.logLine.IsPlain)
    (hstarted : event.started? = none) (format : LogFormat) :
    format.watch now told event = .ok () := by
  rw [watch.eq_def, check_of_isPlain h]
  cases event with
  | evaluationStarted approach total => cases hstarted
  | _ => rfl

/-- What is said about a line that cannot be printed has no lone surrogates. -/
theorem hasSurrogate_of_check {format : LogFormat} {line : LogLine} {failure : Failure}
    (h : format.check now line = .error failure) : failure.message.hasSurrogate = false := by
  cases format with
  | json => cases h
  | console =>
    rw [check] at h
    split at h
    · cases h
    · rename_i run _
      obtain rfl := Except.error.inj h
      exact run.hasSurrogate_message

/-- What watching fails with has no lone surrogates where the tags of all names fit. -/
theorem hasSurrogate_of_watch {format : LogFormat} {event : EvaluationEvent Binary64}
    {failure : Failure} (h : format.watch now told event = .error failure)
    (hnames : ∀ name ∈ told.filterMap EvaluationEvent.started? ++ event.started?.toList,
      Tag.fault? name = none) : failure.message.hasSurrogate = false := by
  cases format with
  | json =>
    rw [watch_json_neverFails now told event] at h
    cases h
  | console =>
    cases hcheck : console.check now event.logLine with
    | error failure' =>
      have hfailed : console.watch now told event = .error failure' := by
        rw [watch.eq_def, hcheck]
        rfl
      obtain rfl := Except.error.inj (hfailed.symm.trans h)
      exact hasSurrogate_of_check hcheck
    | ok _ =>
      rw [watch.eq_def, hcheck] at h
      cases event with
      | evaluationStarted approach total =>
        have hnone : (startedNames now told ++ [approach]).findSome? Tag.fault? = none := by
          refine List.findSome?_eq_none_iff.2 fun name hname => hnames name ?_
          refine List.mem_append.2 ((List.mem_append.1 hname).imp_left fun hstarted => ?_)
          exact startedNames_subset now told hstarted
        change shown ((console.progress now told).begin (.text approach) total).2 = _ at h
        rw [((shows_progress now told).begin approach total).2, hnone] at h
        cases h
      | _ => cases h

end LogFormat

end TypeBench
