import Mathlib.Algebra.Order.Field.Basic
import Mathlib.Algebra.Order.Ring.Rat
import Mathlib.Order.Interval.Set.Defs
import Mathlib.Tactic.FieldSimp
import Mathlib.Tactic.Linarith
import Mathlib.Tactic.Positivity
import Mathlib.Tactic.Ring
import TypeBench.Score.Metrics

/-!
# Exact quantities

Scores and times may be read in rational numbers, which are computed with exactly. A share of a
count is then a quotient, the share of nothing included, and the bounds of shares and of their
harmonic means are those of arithmetic.

## Main definitions

* the rational numbers as quantities.

## Main results

* `Exact.ratio_eq`, `Exact.harmonicMean_eq`: shares and harmonic means are quotients.
* `Exact.ratio_mem`, `Exact.harmonicMean_mem`: they lie between zero and one.
* `Exact.ratio_eq_one_iff`: a share is one if it is one of all of something.
* `Exact.ratio_le_ratio`, `Exact.ratio_add_eq_iff`: shares of a larger whole.
* `Exact.min_le_harmonicMean`, `Exact.harmonicMean_le_mean`: where harmonic means lie.
* `Exact.harmonicMean_le_harmonicMean`: harmonic means of larger numbers.
* `Exact.harmonicMean_shares`: the harmonic mean of two shares of one count.
-/

namespace TypeBench

/-- Rational numbers as quantities. None of them is out of range. -/
instance : Quantity ℚ where
  lt x y := decide (x < y)
  le x y := decide (x ≤ y)
  isZero x := decide (x = 0)
  ofInt? i := some i
  ofQuotient? i j := some (i / j)

namespace Exact

theorem le_iff {x y : ℚ} : Quantity.le x y = true ↔ x ≤ y := decide_eq_true_iff

theorem zero_eq : (Quantity.zero : ℚ) = 0 := Nat.cast_zero

/-- A share is a quotient; a quotient by zero is zero. -/
theorem ratio_eq (part whole : Nat) : (Quantity.ratio part whole : ℚ) = part / whole := by
  rw [Quantity.ratio]
  split
  · next h => rw [h, Nat.cast_zero, div_zero, zero_eq]
  · rfl

theorem ratio_mem {part whole : Nat} (h : part ≤ whole) :
    (Quantity.ratio part whole : ℚ) ∈ Set.Icc 0 1 := by
  rw [ratio_eq]
  have hcast : (part : ℚ) ≤ whole := Nat.cast_le.2 h
  exact ⟨div_nonneg part.cast_nonneg whole.cast_nonneg, div_le_one_of_le₀ hcast whole.cast_nonneg⟩

theorem ratio_eq_one_iff {part whole : Nat} :
    (Quantity.ratio part whole : ℚ) = 1 ↔ part = whole ∧ whole ≠ 0 := by
  rw [ratio_eq]
  constructor
  · intro h
    have hwhole : (whole : ℚ) ≠ 0 := by
      intro hzero
      rw [hzero, div_zero] at h
      exact zero_ne_one h
    have hcast : (part : ℚ) = whole := (div_eq_one_iff_eq hwhole).1 h
    exact ⟨Nat.cast_injective hcast, Nat.cast_ne_zero.1 hwhole⟩
  · rintro ⟨rfl, hwhole⟩
    exact div_self (Nat.cast_ne_zero.2 hwhole)

/-- The share of a part falls when the whole grows, and it stays where there is no part. -/
theorem ratio_le_ratio {part whole whole' : Nat} (hpart : part ≤ whole) (h : whole ≤ whole') :
    (Quantity.ratio part whole' : ℚ) ≤ Quantity.ratio part whole := by
  rw [ratio_eq, ratio_eq]
  rcases whole.eq_zero_or_pos with rfl | hpos
  · rw [Nat.le_zero.1 hpart, Nat.cast_zero, zero_div, zero_div]
  · exact div_le_div_of_nonneg_left part.cast_nonneg (Nat.cast_pos.2 hpos) (Nat.cast_le.2 h)

theorem ratio_add_eq_iff {part whole more : Nat} (hpart : part ≤ whole) :
    (Quantity.ratio part (whole + more) : ℚ) = Quantity.ratio part whole ↔
      more = 0 ∨ part = 0 := by
  rw [ratio_eq, ratio_eq]
  rcases part.eq_zero_or_pos with rfl | hpos
  · rw [Nat.cast_zero, zero_div, zero_div]
    exact iff_of_true rfl (.inr rfl)
  · have hpart' : (part : ℚ) ≠ 0 := Nat.cast_ne_zero.2 hpos.ne'
    rw [div_eq_mul_inv, div_eq_mul_inv, mul_right_inj' hpart', inv_inj, Nat.cast_inj,
      Nat.add_eq_left, or_iff_left hpos.ne']

/-- A harmonic mean is a quotient, also where it is one of zeros. -/
theorem harmonicMean_eq (x y : ℚ) : Quantity.harmonicMean x y = 2 * x * y / (x + y) := by
  rw [Quantity.harmonicMean]
  split
  · next h =>
    have hsum : x + y = 0 := of_decide_eq_true h
    rw [hsum, div_zero, zero_eq]
  · rfl

theorem harmonicMean_mem {x y : ℚ} (hx : x ∈ Set.Icc 0 1) (hy : y ∈ Set.Icc 0 1) :
    Quantity.harmonicMean x y ∈ Set.Icc 0 1 := by
  obtain ⟨hx₀, hx₁⟩ := hx
  obtain ⟨hy₀, hy₁⟩ := hy
  rw [harmonicMean_eq]
  have hsum : 0 ≤ x + y := add_nonneg hx₀ hy₀
  have hproduct : 0 ≤ 2 * x * y := mul_nonneg (mul_nonneg zero_le_two hx₀) hy₀
  -- A product of two shares is no more than either of them.
  have hxy : x * y ≤ x := mul_le_of_le_one_right hx₀ hy₁
  have hyx : x * y ≤ y := mul_le_of_le_one_left hy₀ hx₁
  have hle : 2 * x * y ≤ x + y := by linarith
  exact ⟨div_nonneg hproduct hsum, div_le_one_of_le₀ hle hsum⟩

theorem harmonicMean_one_one : Quantity.harmonicMean (1 : ℚ) 1 = 1 := by
  rw [harmonicMean_eq]
  norm_num

theorem harmonicMean_comm (x y : ℚ) : Quantity.harmonicMean x y = Quantity.harmonicMean y x := by
  rw [harmonicMean_eq, harmonicMean_eq, add_comm x y, mul_right_comm]

theorem harmonicMean_zero_left (y : ℚ) : Quantity.harmonicMean 0 y = 0 := by
  rw [harmonicMean_eq, mul_zero, zero_mul, zero_div]

theorem harmonicMean_eq_zero_iff {x y : ℚ} (hx : 0 ≤ x) (hy : 0 ≤ y) :
    Quantity.harmonicMean x y = 0 ↔ x = 0 ∨ y = 0 := by
  rw [harmonicMean_eq, div_eq_zero_iff, mul_eq_zero, mul_eq_zero]
  constructor
  · rintro (((h | h) | h) | h)
    · exact absurd h two_ne_zero
    · exact .inl h
    · exact .inr h
    · exact .inl (le_antisymm (h ▸ le_add_of_nonneg_right hy) hx)
  · rintro (h | h)
    · exact .inl (.inl (.inr h))
    · exact .inl (.inr h)

/-- The harmonic mean is no more than the arithmetic one. -/
theorem harmonicMean_le_mean {x y : ℚ} (hx : 0 ≤ x) (hy : 0 ≤ y) :
    Quantity.harmonicMean x y ≤ (x + y) / 2 := by
  rw [harmonicMean_eq]
  refine div_le_of_le_mul₀ (add_nonneg hx hy) (by linarith) ?_
  -- Four times the product of two numbers is no more than the square of their sum.
  linarith [four_mul_le_pow_two_add x y]

theorem harmonicMean_le_max {x y : ℚ} (hx : 0 ≤ x) (hy : 0 ≤ y) :
    Quantity.harmonicMean x y ≤ max x y := by
  have hmean := harmonicMean_le_mean hx hy
  linarith [le_max_left x y, le_max_right x y]

/-- The harmonic mean is no less than the smaller number. -/
theorem le_harmonicMean {x y : ℚ} (hx : 0 ≤ x) (hxy : x ≤ y) : x ≤ Quantity.harmonicMean x y := by
  rw [harmonicMean_eq]
  rcases hx.eq_or_lt with rfl | hpos
  · rw [mul_zero, zero_mul, zero_div]
  · rw [le_div_iff₀ (add_pos_of_pos_of_nonneg hpos (hx.trans hxy))]
    have hproduct : x * x ≤ x * y := mul_le_mul_of_nonneg_left hxy hx
    linarith

theorem min_le_harmonicMean {x y : ℚ} (hx : 0 ≤ x) (hy : 0 ≤ y) :
    min x y ≤ Quantity.harmonicMean x y := by
  rcases le_total x y with h | h
  · rw [min_eq_left h]
    exact le_harmonicMean hx h
  · rw [min_eq_right h, harmonicMean_comm]
    exact le_harmonicMean hy h

/-- The harmonic mean does not fall when one number grows. -/
theorem harmonicMean_le_harmonicMean {x x' y : ℚ} (hx : 0 ≤ x) (h : x ≤ x') (hy : 0 ≤ y) :
    Quantity.harmonicMean x y ≤ Quantity.harmonicMean x' y := by
  rcases hx.eq_or_lt with rfl | hpos
  · rw [harmonicMean_zero_left, harmonicMean_eq]
    positivity
  · rw [harmonicMean_eq, harmonicMean_eq,
      div_le_div_iff₀ (add_pos_of_pos_of_nonneg hpos hy)
        (add_pos_of_pos_of_nonneg (hpos.trans_le h) hy)]
    -- Both sides have the part `2 * x * x' * y`; what is left of them are multiples of `y * y`.
    have hsquare : x * (y * y) ≤ x' * (y * y) := mul_le_mul_of_nonneg_right h (mul_nonneg hy hy)
    linarith

/-- The harmonic mean of two shares of one number is a share, too. -/
theorem harmonicMean_shares {part whole other : Nat} (hwhole : part ≤ whole)
    (hother : part ≤ other) :
    Quantity.harmonicMean (part / whole : ℚ) (part / other) = 2 * part / (whole + other) := by
  rcases part.eq_zero_or_pos with rfl | hpos
  · rw [Nat.cast_zero, zero_div, harmonicMean_zero_left, mul_zero, zero_div]
  · have hpart : (0 : ℚ) < part := Nat.cast_pos.2 hpos
    have hwhole' : (0 : ℚ) < whole := Nat.cast_pos.2 (hpos.trans_le hwhole)
    have hother' : (0 : ℚ) < other := Nat.cast_pos.2 (hpos.trans_le hother)
    rw [harmonicMean_eq]
    field_simp
    ring

end Exact

end TypeBench
