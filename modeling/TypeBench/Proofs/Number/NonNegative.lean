import TypeBench.Number.Quantity

/-!
# Numbers that are not negative

A sum of numbers that are not negative is not negative, infinities among them, and neither is the
difference of a finite number and one that is no greater. Rounding does not change a sign.

## Main results

* `Binary64.zero_le_add`: sums of numbers that are not negative.
* `Binary64.zero_le_sub`: differences of finite numbers in order.
* `Binary64.not_lt_of_le_zero`: nothing that is not negative is below zero.
-/

namespace TypeBench

namespace Binary64

theorem quantity_zero : (Quantity.zero : Binary64) = .zero false := by
  decide +kernel

theorem zero_le_finite {negative : Bool} {significand place : Nat} :
    Quantity.le Quantity.zero (.finite negative significand place : Binary64) = true ↔
      0 ≤ (Binary64.finite negative significand place).signedUnits := by
  have hzero : (zero false).signedUnits = 0 := by
    simp [signedUnits, units, zero]
  rw [quantity_zero]
  change decide ((zero false).signedUnits ≤ _) = true ↔ _
  rw [decide_eq_true_iff, hzero]

theorem zero_le_infinity {negative : Bool} :
    Quantity.le Quantity.zero (.infinity negative : Binary64) = true ↔ negative = false := by
  rw [quantity_zero]
  change (!negative) = true ↔ _
  rw [Bool.not_eq_true']

theorem not_zero_le_nan : ¬Quantity.le Quantity.zero Binary64.nan = true := by
  rw [quantity_zero]
  exact Bool.false_ne_true

/-- A number without a sign is not negative. -/
theorem zero_le_settle (significand place : Nat) :
    Quantity.le Quantity.zero (settle false significand place) = true := by
  rw [settle]
  dsimp only
  generalize (if significand = 2 * leadingBit then (leadingBit, place + 1)
    else (significand, place)) = settled
  split
  · exact zero_le_infinity.2 rfl
  · exact zero_le_finite.2 (Int.natCast_nonneg _)

theorem zero_le_ofRatio (num den : Nat) :
    Quantity.le Quantity.zero (ofRatio false num den) = true := by
  rw [ofRatio]
  exact zero_le_settle _ _

/-- Whole units that are not negative are rounded to a number that is not negative. -/
theorem zero_le_ofUnits (zeroNegative : Bool) {i : Int} (h : 0 ≤ i) :
    Quantity.le Quantity.zero (ofUnits zeroNegative i) = true := by
  rw [ofUnits]
  split
  · refine zero_le_finite.2 ?_
    cases zeroNegative <;> simp [signedUnits, units, isNegative]
  · rw [decide_eq_false (Int.not_lt.2 h)]
    exact zero_le_ofRatio _ _

/-- A sum of numbers that are not negative is not negative. -/
theorem zero_le_add {x y : Binary64} (hx : Quantity.le Quantity.zero x = true)
    (hy : Quantity.le Quantity.zero y = true) : Quantity.le Quantity.zero (x + y) = true := by
  change Quantity.le Quantity.zero (x.add y) = true
  cases x with
  | nan => exact absurd hx not_zero_le_nan
  | infinity a =>
    obtain rfl := zero_le_infinity.1 hx
    cases y with
    | nan => exact absurd hy not_zero_le_nan
    | infinity b =>
      obtain rfl := zero_le_infinity.1 hy
      exact hx
    | finite => exact hx
  | finite a m p =>
    cases y with
    | nan => exact absurd hy not_zero_le_nan
    | infinity b => exact hy
    | finite b n q =>
      have hsum := Int.add_nonneg (zero_le_finite.1 hx) (zero_le_finite.1 hy)
      exact zero_le_ofUnits (a && b) hsum

theorem zero_eq : (0 : Binary64) = Quantity.zero := by
  decide +kernel

/-- A number that is not negative is not below one that is at most zero. -/
theorem not_lt_of_le_zero {x y : Binary64} (hx : Quantity.le Quantity.zero x = true)
    (hy : y.le 0 = true) : x.lt y = false := by
  refine Bool.eq_false_iff.2 fun hlt => ?_
  have hbelow : x.lt 0 = true := lt_of_lt_of_le hlt hy
  rw [zero_eq, quantity_zero] at hbelow
  cases x with
  | nan => exact not_zero_le_nan hx
  | infinity negative =>
    obtain rfl := zero_le_infinity.1 hx
    cases hbelow
  | finite negative significand place =>
    have hzero : (zero false).signedUnits = 0 := by
      simp [signedUnits, units, zero]
    have hle := zero_le_finite.1 hx
    have hlt : _ < (zero false).signedUnits := of_decide_eq_true hbelow
    omega

theorem le_refl {x : Binary64} (h : x.isFinite) : Binary64.le x x = true := by
  cases x with
  | nan => cases h
  | infinity => cases h
  | finite => exact decide_eq_true (Int.le_refl _)

/-- The difference of finite numbers in order is not negative. -/
theorem zero_le_sub {x y : Binary64} (hx : x.isFinite) (hy : y.isFinite)
    (h : Binary64.le x y = true) : Quantity.le Quantity.zero (y - x) = true := by
  change Quantity.le Quantity.zero (y.add x.neg) = true
  cases x with
  | nan => cases hx
  | infinity => cases hx
  | finite a m p =>
    cases y with
    | nan => cases hy
    | infinity => cases hy
    | finite b n q =>
      have hneg : (Binary64.finite (!a) m p).signedUnits =
          -(Binary64.finite a m p).signedUnits := by
        cases a <;> simp [signedUnits, units, isNegative]
      have horder : (Binary64.finite a m p).signedUnits ≤ (Binary64.finite b n q).signedUnits :=
        of_decide_eq_true h
      refine zero_le_ofUnits (b && !a) ?_
      rw [hneg]
      omega

end Binary64

end TypeBench
