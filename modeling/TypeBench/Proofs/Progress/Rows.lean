import Mathlib.Data.List.TakeWhile
import TypeBench.Proofs.Progress.Calls

/-!
# Rows of a progress observer

Since the last stop there is one row for each evaluation that was started, in order. The latest row
of an approach follows it: its count is that of the approach, and its status the last one that was
told. When the approach is started again the row is superseded, and no event changes it any more.

## Main definitions

* `ProgressRow.after`: a row after events about its approach.
* `Progress.Owns`, `Progress.IsFrozen`: the latest row of an approach, and a superseded one.
* `Progress.Follows`: an observer that has followed events since the last stop.

## Main results

* `Progress.Owns.observe`, `Progress.Owns.supersede`, `Progress.IsFrozen.observe`: what an event
  does to a row.
* `Progress.follows_after`: the rows after calls that are taken.
* `Progress.Follows.row_eq`, `Progress.exists_start`: the row of a start, and the start of a row.
-/

namespace TypeBench

/-- The status that an event gives to the row of an approach. -/
def EvaluationEvent.status? (a : Text) : EvaluationEvent Binary64 → Option Text
  | evaluationCompleted b accuracy _ _ _ =>
    if b = a then some (Progress.accuracyStatus accuracy) else none
  | evaluationFailed b _ => if b = a then some Progress.failedStatus else none
  | _ => none

namespace ProgressRow

/-- The row of an approach after events: the test cases that are done since then are counted, and
the last status stands. -/
def after (a : Text) (row : ProgressRow Nat) (events : List (EvaluationEvent Binary64)) :
    ProgressRow Nat :=
  { row with
    completed := row.completed + events.countP (·.completes a)
    status := (events.filterMap (·.status? a)).getLast?.getD row.status }

variable (a : Text) (row : ProgressRow Nat)

theorem after_append (events more : List (EvaluationEvent Binary64)) :
    row.after a (events ++ more) = (row.after a events).after a more := by
  simp only [after, List.countP_append, List.filterMap_append, List.getLast?_append,
    Option.getD_or, Nat.add_assoc]

theorem after_singleton (e : EvaluationEvent Binary64) :
    row.after a [e] =
      { row with
        completed := row.completed + if e.completes a then 1 else 0
        status := (e.status? a).getD row.status } := by
  rw [after, List.countP_singleton]
  cases hstatus : e.status? a with
  | none => rw [List.filterMap_cons_none hstatus]; rfl
  | some status => rw [List.filterMap_cons_some hstatus]; rfl

end ProgressRow

namespace Progress

/-! ### Single rows -/

/-- The latest row of an approach: its count is that of the approach. -/
structure Owns (p : Progress Nat) (a : Text) (index : Nat) (row : ProgressRow Nat) : Prop where
  latest : Value.find? (.text a) p.latest = some index
  row_eq : p.rows[index]? = some row
  count : Value.find? (.text a) p.counts = some row.completed

/-- A row that is the latest one of no approach. -/
structure IsFrozen (p : Progress Nat) (index : Nat) (row : ProgressRow Nat) : Prop where
  row_eq : p.rows[index]? = some row
  superseded : ∀ a : Text, Value.find? (.text a) p.latest ≠ some index

/-- Latest rows are rows, and no two approaches have the same. -/
structure IsApart (p : Progress Nat) : Prop where
  inside : ∀ (a : Text) (index : Nat), Value.find? (.text a) p.latest = some index →
    index < p.rows.length
  apart : ∀ (a b : Text) (index : Nat), Value.find? (.text a) p.latest = some index →
    Value.find? (.text b) p.latest = some index → a = b

variable {p : Progress Nat} {a b : Text} {index : Nat} {row : ProgressRow Nat}

/-- Bringing an approach up to date changes its latest row alone. -/
theorem getElem?_rows_update (hshown : p.isDisabled = false) (b : Text) (status : Option Text)
    (index : Nat) :
    (p.update (.text b) status).rows[index]? =
      if Value.find? (.text b) p.latest = some index then
        p.rows[index]?.map fun row =>
          { row with
            completed := p.completedFor (.text b)
            status := status.getD row.status }
      else p.rows[index]? := by
  rw [update, hshown, if_neg Bool.false_ne_true]
  cases hfind : Value.find? (.text b) p.latest with
  | none => rfl
  | some latest =>
    dsimp only
    rw [List.getElem?_modify]
    by_cases hindex : latest = index
    · rw [if_pos (congrArg some hindex)]
      cases p.rows[index]? with
      | none => rfl
      | some row => exact congrArg some (if_pos hindex)
    · rw [if_neg fun e => hindex (Option.some.inj e)]
      cases p.rows[index]? with
      | none => rfl
      | some row => exact congrArg some (if_neg hindex)

theorem IsFrozen.update (h : p.IsFrozen index row) (hshown : p.isDisabled = false) (b : Text)
    (status : Option Text) : (p.update (.text b) status).IsFrozen index row where
  row_eq := by
    rw [getElem?_rows_update hshown, if_neg (h.superseded b)]
    exact h.row_eq
  superseded := by
    rw [latest_update]
    exact h.superseded

/-- No event changes a superseded row. -/
theorem IsFrozen.observe (h : p.IsFrozen index row) (hshown : p.isDisabled = false)
    {e : EvaluationEvent Binary64} (hfault : (p.observe e).2 = none) :
    (p.observe e).1.IsFrozen index row := by
  rcases observe_cases p e with ⟨b, total, rfl⟩ | ⟨-, -, hsame | ⟨counts, b, status, hupdate⟩⟩
  · have hinside := (List.getElem?_eq_some_iff.1 h.row_eq).1
    rw [Progress.observe] at hfault ⊢
    rw [begin_eq hshown hfault]
    refine ⟨(List.getElem?_append_left hinside).trans h.row_eq, fun c => ?_⟩
    dsimp only
    rw [Value.find?_insert_text]
    split_ifs
    · exact fun e => Nat.ne_of_gt hinside (Option.some.inj e)
    · exact h.superseded c
  · rw [hsame]
    exact h
  · have hcounted : IsFrozen { p with counts := counts } index row := ⟨h.row_eq, h.superseded⟩
    rw [hupdate]
    exact hcounted.update hshown b status

/-- A start adds the latest row of its approach. -/
theorem owns_begin (hshown : p.isDisabled = false) {a : Text} {total : Nat}
    (hfault : (p.begin (.text a) total).2 = none) :
    (p.begin (.text a) total).1.Owns a p.rows.length
      ⟨rowLabel p.isColoured (.text a) p.latest.length, total, 0, []⟩ := by
  rw [begin_eq hshown hfault]
  exact ⟨(Value.find?_insert_text ..).trans (if_pos rfl), List.getElem?_concat_length,
    (Value.find?_insert_text ..).trans (if_pos rfl)⟩

/-- The next start of its approach supersedes a row. -/
theorem Owns.supersede (h : p.Owns a index row) (hapart : p.IsApart) (hshown : p.isDisabled = false)
    {total : Nat} (hfault : (p.begin (.text a) total).2 = none) :
    (p.begin (.text a) total).1.IsFrozen index row := by
  have hinside := (List.getElem?_eq_some_iff.1 h.row_eq).1
  rw [begin_eq hshown hfault]
  refine ⟨(List.getElem?_append_left hinside).trans h.row_eq, fun b => ?_⟩
  dsimp only
  rw [Value.find?_insert_text]
  split_ifs with hname
  · exact fun e => Nat.ne_of_gt hinside (Option.some.inj e)
  · exact fun hlatest => hname (hapart.apart a b index h.latest hlatest)

/-- Bringing approaches up to date changes the latest row of an approach only if it is about this
approach, and then gives it its count and the status. -/
theorem Owns.update (h : p.Owns a index row) (hapart : p.IsApart) (hshown : p.isDisabled = false)
    (b : Text) (status : Option Text) :
    (p.update (.text b) status).Owns a index
      { row with status := if b = a then status.getD row.status else row.status } where
  latest := by
    rw [latest_update]
    exact h.latest
  row_eq := by
    rw [getElem?_rows_update hshown, h.row_eq]
    by_cases hname : b = a
    · subst hname
      have hcompleted : p.completedFor (.text b) = row.completed := by
        rw [completedFor, h.count, Option.getD_some]
      rw [if_pos h.latest, if_pos rfl, Option.map_some, hcompleted]
    · rw [if_neg fun hlatest => hname (hapart.apart b a index hlatest h.latest), if_neg hname]
  count := by
    rw [counts_update]
    exact h.count

/-- A test case that is done counts in the latest row of its approach. -/
theorem Owns.advance (h : p.Owns a index row) (hapart : p.IsApart) (hshown : p.isDisabled = false)
    (b : Text) :
    (p.advance (.text b)).Owns a index
      { row with completed := row.completed + if b = a then 1 else 0 } := by
  by_cases hname : b = a
  · subst hname
    let counted : Progress Nat :=
      { p with counts := Value.insert (.text b) (row.completed + 1) p.counts }
    have hadvance : p.advance (.text b) = counted.update (.text b) none := by
      rw [Progress.advance, h.count]
    have hcount : Value.find? (.text b) counted.counts = some (row.completed + 1) :=
      (Value.find?_insert_text ..).trans (if_pos rfl)
    have hcompleted : counted.completedFor (.text b) = row.completed + 1 := by
      rw [completedFor, hcount, Option.getD_some]
    have hlatest : Value.find? (.text b) counted.latest = some index := h.latest
    have hrow : counted.rows[index]? = some row := h.row_eq
    rw [hadvance, if_pos rfl]
    refine ⟨(congrArg _ (latest_update ..)).trans hlatest, ?_,
      (congrArg _ (counts_update ..)).trans hcount⟩
    have hshown' : counted.isDisabled = false := hshown
    rw [getElem?_rows_update hshown', if_pos hlatest, hrow, Option.map_some, hcompleted,
      Option.getD_none]
  · -- The count of another approach changes no row of this one.
    have hother (counts : List (Value × Nat))
        (hcount : Value.find? (.text a) counts = some row.completed) :
        (Progress.update (.text b) none { p with counts := counts }).Owns a index row := by
      have hcounted : Owns { p with counts := counts } a index row := ⟨h.latest, h.row_eq, hcount⟩
      have hupdate := hcounted.update ⟨hapart.inside, hapart.apart⟩ hshown b none
      rwa [if_neg hname] at hupdate
    rw [if_neg hname, Progress.advance]
    split
    · exact hother _ ((Value.find?_insert_text ..).trans ((if_neg hname).trans h.count))
    · exact hother p.counts h.count

/-- No event supersedes the latest row of an approach but its next start, and the row follows what
is told of the approach. -/
theorem Owns.observe (h : p.Owns a index row) (hapart : p.IsApart) (hshown : p.isDisabled = false)
    {e : EvaluationEvent Binary64} (hfault : (p.observe e).2 = none)
    (hstarted : e.started? ≠ some a) : (p.observe e).1.Owns a index (row.after a [e]) := by
  rw [row.after_singleton]
  cases e with
  | evaluationStarted b total =>
    have hname : ¬b = a := fun e => hstarted (congrArg some e)
    have hinside := (List.getElem?_eq_some_iff.1 h.row_eq).1
    rw [Progress.observe] at hfault ⊢
    rw [begin_eq hshown hfault]
    exact ⟨(Value.find?_insert_text ..).trans ((if_neg hname).trans h.latest),
      (List.getElem?_append_left hinside).trans h.row_eq,
      (Value.find?_insert_text ..).trans ((if_neg hname).trans h.count)⟩
  | caseCompleted b =>
    have hadvance := h.advance hapart hshown b
    rw [Progress.observe, EvaluationEvent.completes]
    by_cases hname : b = a
    · rw [if_pos hname] at hadvance
      rw [decide_eq_true hname]
      exact hadvance
    · rw [if_neg hname] at hadvance
      rw [decide_eq_false hname]
      exact hadvance
  | evaluationCompleted b accuracy _ _ _ =>
    have hupdate := h.update hapart hshown b (some (accuracyStatus accuracy))
    rw [Progress.observe, EvaluationEvent.status?]
    by_cases hname : b = a
    · rw [if_pos hname] at hupdate ⊢
      exact hupdate
    · rw [if_neg hname] at hupdate ⊢
      exact hupdate
  | evaluationFailed b =>
    have hupdate := h.update hapart hshown b (some failedStatus)
    rw [Progress.observe, EvaluationEvent.status?]
    by_cases hname : b = a
    · rw [if_pos hname] at hupdate ⊢
      exact hupdate
    · rw [if_neg hname] at hupdate ⊢
      exact hupdate
  | _ => exact h

theorem length_rows_update {T : Type} (approach : Value) (status : Option Text) (p : Progress T) :
    (p.update approach status).rows.length = p.rows.length := by
  rw [Progress.update]
  split
  · rfl
  · split
    · rfl
    · exact List.length_modify ..

/-- A start adds a row, and no other event does. -/
theorem length_rows_observe (hshown : p.isDisabled = false) {e : EvaluationEvent Binary64}
    (hfault : (p.observe e).2 = none) :
    (p.observe e).1.rows.length = p.rows.length + e.started?.toList.length := by
  rcases observe_cases p e with
    ⟨b, total, rfl⟩ | ⟨hstarted, -, hsame | ⟨counts, b, status, hupdate⟩⟩
  · rw [observe] at hfault ⊢
    rw [begin_eq hshown hfault]
    exact List.length_append
  · rw [hsame, hstarted]
    rfl
  · rw [hupdate, length_rows_update, hstarted]
    rfl

theorem IsApart.observe (h : p.IsApart) (hshown : p.isDisabled = false)
    {e : EvaluationEvent Binary64} (hfault : (p.observe e).2 = none) :
    (p.observe e).1.IsApart := by
  have hlength := length_rows_observe hshown hfault
  rcases observe_cases p e with ⟨c, total, rfl⟩ | ⟨hstarted, -, -⟩
  · rw [Progress.observe] at hfault ⊢
    rw [begin_eq hshown hfault]
    refine ⟨fun a index hindex => ?_, fun a b index ha hb => ?_⟩
    · dsimp only at hindex ⊢
      rw [Value.find?_insert_text] at hindex
      rw [List.length_append, List.length_singleton]
      split_ifs at hindex
      · exact Nat.lt_succ_of_le (Nat.le_of_eq (Option.some.inj hindex).symm)
      · exact Nat.lt_succ_of_lt (h.inside a index hindex)
    · dsimp only at ha hb
      rw [Value.find?_insert_text] at ha hb
      split_ifs at ha hb with hca hcb hcb
      · exact hca.symm.trans hcb
      · exact absurd (Option.some.inj ha) (Nat.ne_of_gt (h.inside b index hb))
      · exact absurd (Option.some.inj hb) (Nat.ne_of_gt (h.inside a index ha))
      · exact h.apart a b index ha hb
  · -- Nothing but a start changes which rows are the latest.
    have hlatest (a : Text) :
        Value.find? (.text a) (p.observe e).1.latest = Value.find? (.text a) p.latest :=
      find?_latest_observe p fun e => Option.some_ne_none a (e.symm.trans hstarted)
    refine ⟨fun a index hindex => ?_, fun a b index ha hb => ?_⟩
    · rw [hlatest] at hindex
      rw [hlength]
      exact Nat.lt_add_right _ (h.inside a index hindex)
    · rw [hlatest] at ha hb
      exact h.apart a b index ha hb

/-! ### All rows -/

/-- An observer has followed events since the last stop: it has one row for each start, in order.
The row of a start is the latest one of its approach if this was not started again, and else it
stands as it was then. -/
structure Follows (isColoured : Bool) (events : List (EvaluationEvent Binary64))
    (p : Progress Nat) : Prop where
  isApart : p.IsApart
  length_rows : p.rows.length = (events.filterMap EvaluationEvent.started?).length
  owns : ∀ before a total tail, events = before ++ .evaluationStarted a total :: tail →
    (∀ e ∈ tail, e.started? ≠ some a) →
    p.Owns a (before.filterMap EvaluationEvent.started?).length
      (ProgressRow.after a ⟨labelAfter isColoured before a, total, 0, []⟩ tail)
  isFrozen : ∀ before a total tail, events = before ++ .evaluationStarted a total :: tail →
    (∃ e ∈ tail, e.started? = some a) →
    p.IsFrozen (before.filterMap EvaluationEvent.started?).length
      (ProgressRow.after a ⟨labelAfter isColoured before a, total, 0, []⟩
        (tail.takeWhile fun e => e.started? ≠ some a))

variable {events : List (EvaluationEvent Binary64)}

theorem follows_of_rows_eq_nil (isColoured : Bool) (hrows : p.rows = []) (hlatest : p.latest = []) :
    Follows isColoured [] p where
  isApart := by
    constructor
    · intro a index hindex
      rw [hlatest] at hindex
      cases hindex
    · intro a b index hindex
      rw [hlatest] at hindex
      cases hindex
  length_rows := by rw [hrows]; rfl
  owns before a total tail h := absurd h.symm (by simp)
  isFrozen before a total tail h := absurd h.symm (by simp)

/-- Taking an event an observer follows one event more. -/
theorem Follows.observe {isColoured : Bool} (h : Follows isColoured events p)
    (htidy : IsTidy events p) (hshown : p.isDisabled = false)
    (hcoloured : p.isColoured = isColoured) {e : EvaluationEvent Binary64}
    (hfault : (p.observe e).2 = none) :
    Follows isColoured (events ++ [e]) (p.observe e).1 where
  isApart := h.isApart.observe hshown hfault
  length_rows := by
    rw [length_rows_observe hshown hfault, h.length_rows, List.filterMap_append,
      List.length_append]
    cases hstarted : e.started? with
    | none => rw [List.filterMap_cons_none hstarted]; rfl
    | some a => rw [List.filterMap_cons_some hstarted]; rfl
  owns := by
    intro before a total tail hsplit htail
    rcases append_singleton_eq hsplit with ⟨rfl, rfl, rfl⟩ | ⟨tail', rfl, rfl⟩
    · have howns := owns_begin hshown hfault
      rwa [hcoloured, htidy.length_latest, h.length_rows] at howns
    · obtain ⟨htail', he⟩ := List.forall_mem_append.1 htail
      rw [ProgressRow.after_append]
      exact (h.owns before a total tail' rfl htail').observe h.isApart hshown hfault
        (he e List.mem_cons_self)
  isFrozen := by
    intro before a total tail hsplit htail
    rcases append_singleton_eq hsplit with ⟨rfl, rfl, rfl⟩ | ⟨tail', rfl, rfl⟩
    · obtain ⟨e, he, -⟩ := htail
      cases he
    · by_cases hagain : ∃ e ∈ tail', e.started? = some a
      · have hown : (tail' ++ [e]).takeWhile (fun e => e.started? ≠ some a) =
            tail'.takeWhile fun e => e.started? ≠ some a := by
          rw [List.takeWhile_append, if_neg]
          intro hlength
          obtain ⟨again, hmem, hstarted⟩ := hagain
          have hall := List.takeWhile_eq_self_iff.1
            ((List.takeWhile_sublist _).eq_of_length hlength)
          exact of_decide_eq_true (hall again hmem) hstarted
        rw [hown]
        exact (h.isFrozen before a total tail' rfl hagain).observe hshown hfault
      · have hnone : ∀ e ∈ tail', e.started? ≠ some a := fun e he hstarted =>
          hagain ⟨e, he, hstarted⟩
        have hagain' : e.started? = some a := by
          obtain ⟨again, hmem, hstarted⟩ := htail
          rcases List.mem_append.1 hmem with hmem | hmem
          · exact absurd hstarted (hnone again hmem)
          · rwa [List.mem_singleton.1 hmem] at hstarted
        have hlast : [e].takeWhile (fun e => e.started? ≠ some a) = [] :=
          List.takeWhile_cons_of_neg fun hne => of_decide_eq_true hne hagain'
        have hown : (tail' ++ [e]).takeWhile (fun e => e.started? ≠ some a) = tail' := by
          rw [List.takeWhile_append_of_pos fun e he => decide_eq_true (hnone e he), hlast,
            List.append_nil]
        rw [hown]
        cases e with
        | evaluationStarted b total' =>
          obtain rfl := Option.some.inj hagain'
          exact (h.owns before b total tail' rfl hnone).supersede h.isApart hshown hfault
        | _ => cases hagain'

/-- An observer that takes all calls follows the events since the last stop. -/
theorem follows_after {isColoured : Bool} {calls : List ProgressCall}
    (h : AtEach (fun before c => (after false isColoured before).Takes c) calls) :
    Follows isColoured (recent calls) (after false isColoured calls) := by
  induction calls using List.reverseRecOn with
  | nil => exact follows_of_rows_eq_nil isColoured rfl rfl
  | append_singleton calls c ih =>
    obtain ⟨hcalls, hc⟩ := atEach_append_singleton.1 h
    have htidy := isTidy_after hcalls
    obtain ⟨hshown, hcoloured⟩ := mode_after false isColoured calls
    rw [after_append_singleton]
    cases c with
    | stop =>
      rw [recent_append_stop, answer, stop, htidy.fault?_eq]
      exact follows_of_rows_eq_nil isColoured rfl rfl
    | event e =>
      rw [recent_append_event]
      exact (ih hcalls).observe htidy hshown hcoloured ((takes_event_iff _ e).1 hc).1

/-- The row of a start, whether or not it has been superseded. -/
theorem Follows.row_eq {isColoured : Bool} (h : Follows isColoured events p)
    {before : List (EvaluationEvent Binary64)} {a : Text} {total : Nat}
    {tail : List (EvaluationEvent Binary64)}
    (hsplit : events = before ++ .evaluationStarted a total :: tail) :
    p.rows[(before.filterMap EvaluationEvent.started?).length]? =
      some (ProgressRow.after a ⟨labelAfter isColoured before a, total, 0, []⟩
        (tail.takeWhile fun e => e.started? ≠ some a)) := by
  by_cases hagain : ∃ e ∈ tail, e.started? = some a
  · exact (h.isFrozen before a total tail hsplit hagain).row_eq
  · have hnone : ∀ e ∈ tail, e.started? ≠ some a := fun e he hstarted => hagain ⟨e, he, hstarted⟩
    rw [List.takeWhile_eq_self_iff.2 fun e he => decide_eq_true (hnone e he)]
    exact (h.owns before a total tail hsplit hnone).row_eq

/-- A list of starts has each of its starts at a place. -/
theorem exists_start {events : List (EvaluationEvent Binary64)} {index : Nat}
    (h : index < (events.filterMap EvaluationEvent.started?).length) :
    ∃ before a total tail, events = before ++ .evaluationStarted a total :: tail ∧
      (before.filterMap EvaluationEvent.started?).length = index := by
  induction events using List.reverseRecOn with
  | nil => cases h
  | append_singleton events e ih =>
    by_cases hindex : index < (events.filterMap EvaluationEvent.started?).length
    · obtain ⟨before, a, total, tail, rfl, hlength⟩ := ih hindex
      exact ⟨before, a, total, tail ++ [e], by rw [List.append_assoc, List.cons_append], hlength⟩
    · rw [List.filterMap_append, List.length_append] at h
      cases e with
      | evaluationStarted a total =>
        exact ⟨events, a, total, [], rfl, Nat.le_antisymm (Nat.le_of_not_lt hindex)
          (Nat.le_of_lt_succ h)⟩
      | _ => exact absurd h hindex

end Progress

end TypeBench
