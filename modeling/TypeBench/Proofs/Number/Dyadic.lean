import Mathlib.Tactic.Ring
import TypeBench.Number.Binary64

/-!
# Exact fractions

Most quotients have to be rounded to be a number. A fraction over a power of two is one as it is,
if its numerator has no more bits than a significand and its denominator is no more than the least
units that make one.

## Main results

* `roundDiv_mul_self`: an exact quotient is not rounded.
* `Binary64.ofRatio_dyadic`: a fraction over a power of two is exact.
* `Binary64.ofRatio_lt_one`: if it is below one, so is the number.
-/

namespace TypeBench

/-- An exact quotient is not rounded. -/
theorem roundDiv_mul_self (quotient : Nat) {den : Nat} (h : 0 < den) :
    roundDiv (quotient * den) den = quotient := by
  rw [roundDiv, Nat.mul_div_cancel quotient h, Nat.mul_mod_left]
  exact if_pos (.inl h)

namespace Binary64

theorem one_eq_pow : one = 2 ^ 1074 := by
  decide +kernel

theorem one_eq_mul {k : Nat} (h : k ≤ 1074) : one = 2 ^ (1074 - k) * 2 ^ k := by
  rw [one_eq_pow, ← Nat.pow_add, Nat.sub_add_cancel h]

/-- A significand in range stays as it is. -/
theorem settle_of_lt (negative : Bool) {significand place : Nat}
    (hsignificand : significand < 2 * leadingBit) (hplace : place ≤ topPlace) :
    settle negative significand place = .finite negative significand place := by
  rw [settle, if_neg (Nat.ne_of_lt hsignificand)]
  exact if_neg (Nat.not_lt.2 hplace)

/-- A whole number of least units, cut where its leading bits end, has a significand in range. -/
theorem lt_of_log2_place (units : Nat) : units / 2 ^ (units.log2 - 52) < 2 * leadingBit := by
  refine Nat.div_lt_of_lt_mul (Nat.lt_of_lt_of_le Nat.lt_log2_self ?_)
  have htop : 2 * leadingBit = 2 ^ 53 := rfl
  rw [htop, ← Nat.pow_add]
  exact Nat.pow_le_pow_right Nat.two_pos (by omega)

/-- **Exact fractions.** The number nearest to a fraction over a power of two is the fraction, in
least units. -/
theorem ofRatio_dyadic (negative : Bool) {n k : Nat} (hn : n < 2 ^ 53) (hk : k ≤ 1074) :
    ∃ significand place, ofRatio negative n (Nat.pow 2 k) = .finite negative significand place ∧
      significand * 2 ^ place = n * 2 ^ (1074 - k) := by
  generalize hunits : n * 2 ^ (1074 - k) = units
  have hpositive : 0 < 2 ^ k := Nat.two_pow_pos k
  have hnum : n * one = units * 2 ^ k := by rw [one_eq_mul hk, ← hunits, Nat.mul_assoc]
  have hplace : units.log2 - 52 ≤ 1074 - k := by
    rcases Nat.eq_zero_or_pos units with rfl | hpos
    · exact Nat.zero_le _
    · have hlog : units.log2 < 53 + (1074 - k) := by
        refine (Nat.log2_lt (Nat.ne_of_gt hpos)).2 ?_
        rw [← hunits, Nat.pow_add]
        exact Nat.mul_lt_mul_of_pos_right hn (Nat.two_pow_pos _)
      omega
  have hdvd : 2 ^ (units.log2 - 52) ∣ units := by
    rw [← hunits]
    exact Nat.dvd_mul_left_of_dvd (Nat.pow_dvd_pow 2 (hunits ▸ hplace)) n
  have hexact : units / 2 ^ (units.log2 - 52) * 2 ^ (units.log2 - 52) = units :=
    Nat.div_mul_cancel hdvd
  refine ⟨units / 2 ^ (units.log2 - 52), units.log2 - 52, ?_, hexact⟩
  rw [ofRatio, hnum]
  change settle negative
    (roundDiv (units * 2 ^ k) (2 ^ k * 2 ^ ((units * 2 ^ k / 2 ^ k).log2 - 52)))
    ((units * 2 ^ k / 2 ^ k).log2 - 52) = _
  rw [Nat.mul_div_cancel units hpositive]
  have hcut : units * 2 ^ k =
      units / 2 ^ (units.log2 - 52) * (2 ^ k * 2 ^ (units.log2 - 52)) := by
    rw [Nat.mul_left_comm, hexact, Nat.mul_comm]
  have hround : roundDiv (units * 2 ^ k) (2 ^ k * 2 ^ (units.log2 - 52)) =
      units / 2 ^ (units.log2 - 52) := by
    rw [hcut]
    exact roundDiv_mul_self _ (Nat.mul_pos hpositive (Nat.two_pow_pos _))
  rw [hround]
  have htop : units.log2 - 52 ≤ topPlace :=
    hplace.trans ((Nat.sub_le 1074 k).trans (by decide))
  exact settle_of_lt negative (lt_of_log2_place units) htop

/-! ### Fractions below one -/

theorem finite_lt_finite {a b : Bool} {m n p q : Nat} :
    (finite a m p).lt (finite b n q) = true ↔
      (finite a m p).signedUnits < (finite b n q).signedUnits := decide_eq_true_iff

theorem one_eq_finite : (1 : Binary64) = .finite false leadingBit 1022 := by
  decide +kernel

theorem signedUnits_one : (1 : Binary64).signedUnits = (one : Int) := by
  decide +kernel

/-- A fraction over a power of two that is below one stays below one. -/
theorem ofRatio_lt_one {n k : Nat} (hn : n < 2 ^ k) (hk : k ≤ 53) :
    (ofRatio false n (Nat.pow 2 k)).lt 1 = true := by
  have hsignificand : n < 2 ^ 53 := Nat.lt_of_lt_of_le hn (Nat.pow_le_pow_right Nat.two_pos hk)
  have hone : k ≤ 1074 := hk.trans (by decide)
  obtain ⟨significand, place, hratio, hunits⟩ := ofRatio_dyadic false hsignificand hone
  have hlt :
      (Binary64.finite false significand place).signedUnits < (1 : Binary64).signedUnits := by
    rw [signedUnits_one, one_eq_mul hone, Nat.mul_comm]
    refine Int.ofNat_lt.2 (hunits.trans_lt ?_)
    exact Nat.mul_lt_mul_of_pos_right hn (Nat.two_pow_pos _)
  rw [one_eq_finite] at hlt
  rw [hratio, one_eq_finite]
  exact finite_lt_finite.2 hlt

end Binary64

end TypeBench
