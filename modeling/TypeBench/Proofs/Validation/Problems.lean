import TypeBench.Proofs.Text.Plain
import TypeBench.Score.Result

/-!
# Reports without lone surrogates

A report names the places of its problems and the rules that are broken there. Most places are named
by the keys of a record, and most rules say nothing about the value that breaks them, so what a
value holds cannot get into a report on a record of this kind. This is the case for results.

## Main definitions

* `Problem.IsPlain`, `Checked.IsPlain`: problems without lone surrogates, and checks that find only
  such problems.

## Main results

* `Checked.IsPlain.seq`, `Checked.IsPlain.within`: checks that are made of others.
* `EvaluationResult.hasSurrogate_of_accept`: a report on a result.
-/

namespace TypeBench

/-! ### Checks -/

/-- A problem whose place and rule have no lone surrogates. -/
structure Problem.IsPlain (problem : Problem) : Prop where
  place : ∀ step ∈ problem.place, step.text.hasSurrogate = false
  rule : problem.rule.message.hasSurrogate = false

/-- A check that finds only such problems. -/
def Checked.IsPlain {α : Type} (x : Checked α) : Prop :=
  ∀ problems, x = .invalid problems → ∀ problem ∈ problems, problem.IsPlain

namespace Checked

variable {α β : Type}

theorem isPlain_broken {rule : Rule} (h : rule.message.hasSurrogate = false) :
    (broken rule : Checked α).IsPlain := by
  intro problems hproblems problem hmem
  obtain rfl := Checked.invalid.inj hproblems
  obtain rfl := List.mem_singleton.1 hmem
  exact ⟨nofun, h⟩

theorem IsPlain.map {x : Checked α} (h : x.IsPlain) (f : α → β) :
    (f <$> x).IsPlain := by
  cases x with
  | valid a => exact nofun
  | invalid problems =>
    intro all hall
    obtain rfl := Checked.invalid.inj hall
    exact h problems rfl

theorem IsPlain.seq {f : Checked (α → β)} {x : Checked α} (hf : f.IsPlain)
    (hx : x.IsPlain) : (f <*> x).IsPlain := by
  intro all hall
  cases f with
  | valid g =>
    cases x with
    | valid a => cases hall
    | invalid problems =>
      obtain rfl := Checked.invalid.inj hall
      exact hx problems rfl
  | invalid problems =>
    cases x with
    | valid a =>
      obtain rfl := Checked.invalid.inj hall
      exact hf problems rfl
    | invalid more =>
      obtain rfl := Checked.invalid.inj hall
      exact List.forall_mem_append.2 ⟨hf problems rfl, hx more rfl⟩

theorem IsPlain.within {x : Checked α} (h : x.IsPlain) (name : String) :
    (x.within (.key name)).IsPlain := by
  cases x with
  | valid a => exact nofun
  | invalid problems =>
    intro all hall problem hmem
    obtain rfl := Checked.invalid.inj hall
    obtain ⟨inner, hinner, rfl⟩ := List.mem_map.1 hmem
    have hproblem := h problems rfl inner hinner
    exact ⟨List.forall_mem_cons.2 ⟨Text.hasSurrogate_ofString name, hproblem.place⟩,
      hproblem.rule⟩

end Checked

/-! ### Reports -/

/-- A report of such problems has no lone surrogates. -/
theorem Report.hasSurrogate_message {report : Report}
    (h : ∀ problem ∈ report.problems, problem.IsPlain) :
    report.message.hasSurrogate = false := by
  have hsummary : report.summary.hasSurrogate = false := by
    simp only [summary]
    split <;> simp
  refine Text.hasSurrogate_join rfl (List.forall_mem_cons.2 ⟨hsummary, fun line hline => ?_⟩)
  obtain ⟨problem, hproblem, hline⟩ := List.mem_flatMap.1 hline
  obtain ⟨hplace, hrule⟩ := h problem hproblem
  have hpath : problem.pathText.hasSurrogate = false := by
    refine Text.hasSurrogate_join rfl fun part hpart => ?_
    obtain ⟨step, hstep, rfl⟩ := List.mem_map.1 hpart
    exact hplace step hstep
  simp only [Problem.lines, List.mem_cons, List.not_mem_nil, or_false] at hline
  rcases hline with rfl | rfl
  · exact hpath
  · simp [hrule]

/-- Neither has a report on a result, whatever the name of its approach is. -/
theorem EvaluationResult.hasSurrogate_of_accept {R : Type} [Quantity R] {r : EvaluationResult R}
    {report : Report} (h : r.accept = .error report) : report.message.hasSurrogate = false := by
  have happroach : (Field.nonEmptyText (.text r.approach)).IsPlain := by
    rw [Field.nonEmptyText, Field.text, Checked.andThen]
    split
    · exact Checked.isPlain_broken (Text.hasSurrogate_ofString _)
    · split
      · exact Checked.isPlain_broken (Text.hasSurrogate_ofString _)
      · exact nofun
  have haccuracy : (Field.inUnitInterval r.accuracy).IsPlain := by
    rw [Field.inUnitInterval]
    split
    · exact Checked.isPlain_broken (by simp [Rule.message])
    · split
      · exact Checked.isPlain_broken (by simp [Rule.message])
      · exact nofun
  have htime : (Field.notNegative r.time).IsPlain := by
    rw [Field.notNegative]
    split
    · exact nofun
    · exact Checked.isPlain_broken (by simp [Rule.message])
  have hbounded : r.bounded.IsPlain :=
    (((happroach.within "approach_name").map _).seq (haccuracy.within "accuracy")).seq
      (htime.within "execution_time_seconds")
  rw [accept] at h
  cases hresult : r.bounded with
  | valid r' =>
    rw [hresult] at h
    cases h
  | invalid problems =>
    rw [hresult] at h
    obtain rfl := Except.error.inj h
    exact Report.hasSurrogate_message (hbounded problems hresult)

end TypeBench
