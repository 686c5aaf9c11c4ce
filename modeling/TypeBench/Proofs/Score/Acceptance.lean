import TypeBench.Proofs.Validation.Accepted
import TypeBench.Score.Result

/-!
# Accepted results

A result is accepted as it is or not at all: it keeps its bounds, or a report names those it breaks.
Of the time only its sign is looked at, so results that differ in their times alone are accepted or
refused together.

## Main definitions

* `EvaluationResult.KeepsBounds`: the bounds of the fields of a result.
* `EvaluationResult.untimed`: a result without its time.

## Main results

* `EvaluationResult.eq_of_accept`: what is accepted is the result as it was.
* `EvaluationResult.accept_of_keepsBounds`, `EvaluationResult.keepsBounds_of_accept`: a result is
  accepted if it keeps its bounds, and only then.
* `EvaluationResult.accept_map`: nothing else decides it.
* `EvaluationResult.untimed_accept`: of two times above zero none makes a difference.
-/

namespace TypeBench

namespace EvaluationResult

variable {R : Type} [Quantity R]

/-- The bounds of the fields of a result. -/
structure KeepsBounds (r : EvaluationResult R) : Prop where
  hasSurrogate_eq_false : r.approach.hasSurrogate = false
  approach_ne_nil : r.approach ≠ []
  accuracy_le_one : Quantity.le r.accuracy ((1 : Nat) : R) = true
  zero_le_accuracy : Quantity.le Quantity.zero r.accuracy = true
  zero_le_time : Quantity.le Quantity.zero r.time = true

theorem notNegative_of_zero_le {x : R} (h : Quantity.le Quantity.zero x = true) :
    Field.notNegative x = .valid x := by
  rw [Field.notNegative, h, if_pos rfl]

/-- A result that keeps its bounds is accepted. -/
theorem accept_of_keepsBounds {r : EvaluationResult R} (h : r.KeepsBounds) :
    r.accept = .ok r := by
  have happroach : Field.nonEmptyText (.text r.approach) = .valid r.approach := by
    rw [Field.nonEmptyText, Field.text, Checked.andThen, h.hasSurrogate_eq_false,
      if_neg Bool.false_ne_true, if_neg h.approach_ne_nil]
  have haccuracy : Field.inUnitInterval r.accuracy = .valid r.accuracy := by
    rw [Field.inUnitInterval, h.accuracy_le_one, h.zero_le_accuracy]
    rfl
  rw [accept, bounded, happroach, haccuracy, notNegative_of_zero_le h.zero_le_time]
  rfl

/-- Only a result that keeps its bounds is accepted. -/
theorem keepsBounds_of_accept {r r' : EvaluationResult R} (h : r.accept = .ok r') :
    r.KeepsBounds := by
  obtain ⟨_, _, hrest, htime, -⟩ := Checked.exists_of_seq (Checked.valid_of_report h)
  obtain ⟨_, _, hrest, haccuracy, -⟩ := Checked.exists_of_seq hrest
  obtain ⟨_, happroach, -⟩ := Checked.exists_of_map hrest
  obtain ⟨hne, hname⟩ := Field.of_nonEmptyText_text (Checked.valid_of_within happroach)
  obtain ⟨hone, hzero⟩ := Field.of_inUnitInterval (Checked.valid_of_within haccuracy)
  exact ⟨hname, hne, hone, hzero, Field.of_notNegative (Checked.valid_of_within htime)⟩

/-- What is accepted is the result as it was. -/
theorem eq_of_accept {r r' : EvaluationResult R} (h : r.accept = .ok r') : r' = r := by
  rw [accept, bounded] at h
  generalize (Field.nonEmptyText (.text r.approach)).within (.key "approach_name") = x at h
  generalize (Field.inUnitInterval r.accuracy).within (.key "accuracy") = y at h
  generalize (Field.notNegative r.time).within (.key "execution_time_seconds") = z at h
  cases x <;> cases y <;> cases z <;> cases h
  rfl

/-- What leaves the name, the accuracy and the time of a result as they are does not decide whether
it is accepted. -/
theorem accept_map {g : EvaluationResult R → EvaluationResult R} {r : EvaluationResult R}
    (happroach : (g r).approach = r.approach) (haccuracy : (g r).accuracy = r.accuracy)
    (htime : (g r).time = r.time) : (g r).accept = r.accept.map g := by
  rw [accept, accept, bounded, bounded, happroach, haccuracy, htime]
  generalize (Field.nonEmptyText (.text r.approach)).within (.key "approach_name") = x
  generalize (Field.inUnitInterval r.accuracy).within (.key "accuracy") = y
  generalize (Field.notNegative r.time).within (.key "execution_time_seconds") = z
  cases x <;> cases y <;> cases z <;> rfl

/-- A result without its time. -/
def untimed (r : EvaluationResult R) : EvaluationResult R := { r with time := Quantity.zero }

/-- Of two times above zero none makes a difference. -/
theorem untimed_accept {r r' : EvaluationResult R} (h : r.untimed = r'.untimed)
    (htime : Quantity.le Quantity.zero r.time = true)
    (htime' : Quantity.le Quantity.zero r'.time = true) :
    r.accept.map untimed = r'.accept.map untimed := by
  have happroach : r.untimed.approach = r'.untimed.approach := by rw [h]
  have haccuracy : r.untimed.accuracy = r'.untimed.accuracy := by rw [h]
  change r.approach = r'.approach at happroach
  change r.accuracy = r'.accuracy at haccuracy
  rw [accept, accept, bounded, bounded, notNegative_of_zero_le htime,
    notNegative_of_zero_le htime', happroach, haccuracy]
  generalize (Field.nonEmptyText (.text r'.approach)).within (.key "approach_name") = x
  generalize (Field.inUnitInterval r'.accuracy).within (.key "accuracy") = y
  cases x <;> cases y
  · exact congrArg Except.ok h
  all_goals rfl

end EvaluationResult

end TypeBench
