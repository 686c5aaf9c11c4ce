import TypeBench.Number.Mixed
import TypeBench.Score.Metrics

/-!
# Harmonic means of given numbers

Precisions and recalls may be given as numbers of either kind. Their harmonic means are computed
exactly as long as they are whole, and may be out of range.

## Main definitions

* `Mixed.harmonicMean`: the harmonic mean of two numbers.
* `Named.harmonicMeans`: the harmonic means of two maps, label by label.

## Main results

* `Mixed.harmonicMean_measured`: of quantities it is the harmonic mean of quantities.
-/

namespace TypeBench

/-- The harmonic mean of two numbers, zero if they add up to zero. -/
def Mixed.harmonicMean {R : Type} [Quantity R] (x y : Mixed R) : Except RangeFault R := do
  let sum ← x.add y
  if sum.isZero then return Quantity.zero
  else (← (← Mixed.mul (.whole 2) x).mul y).div sum

theorem Quantity.ofInt?_two : Quantity.ofInt? 2 = some ((2 : Nat) : Binary64) := by
  decide +kernel

theorem Mixed.harmonicMean_measured (x y : Binary64) :
    harmonicMean (.measured x) (.measured y) = .ok (Quantity.harmonicMean x y) := by
  have hdouble : mul (.whole 2) (.measured x) = .ok (.measured (((2 : Nat) : Binary64) * x)) := by
    simp only [mul, combine, quantity, Quantity.ofInt?_two]
    rfl
  have hsum : add (.measured x) (.measured y) = .ok (.measured (x + y)) := rfl
  cases hzero : Quantity.isZero (x + y) <;>
    simp only [harmonicMean, hsum, hdouble, isZero, hzero, Quantity.harmonicMean, bind,
      Except.bind] <;>
    rfl

/-- The number of a label; a label without one has zero. -/
def Named.numberOf {R : Type} [Quantity R] (numbers : Named (Mixed R)) (label : Text) : Mixed R :=
  (numbers.lookup label).getD (.measured Quantity.zero)

/-- The harmonic means of two maps, label by label: the labels of the first map come first. -/
def Named.harmonicMeans {R : Type} [Quantity R] (precisions recalls : Named (Mixed R)) :
    Except RangeFault (LabelMap R) :=
  (Named.names (precisions ++ recalls)).eraseDups.mapM fun label => do
    return (label, ← (precisions.numberOf label).harmonicMean (recalls.numberOf label))

end TypeBench
