import Mathlib.Data.Nat.Log
import TypeBench.Proofs.Number.Dyadic
import TypeBench.Proofs.Number.NonNegative

/-!
# Rounding keeps order

A quotient is rounded at a place that depends on its size. At one place a larger numerator is
rounded to a larger significand or to the same one; and a number at a higher place is larger than
all numbers below it, since its significand has the leading bit. So rounding never turns two
quotients round, and a share of a count does not fall when its part grows.

## Main results

* `roundDiv_mono`: rounding to whole numbers keeps order.
* `Binary64.ofRatio_mono`: so does rounding to binary64 numbers.
* `Binary64.div_mono`: so does dividing numbers that are not negative.
* `Binary64.ratio_mono`, `Binary64.not_ratio_lt`: shares of larger parts.
* `Binary64.zero_le_ratio`, `Binary64.ratio_le_one`: shares are between zero and one.
-/

namespace TypeBench

/-! ### Whole numbers -/

theorem div_le_roundDiv (num den : Nat) : num / den ≤ roundDiv num den := by
  rw [roundDiv]
  split <;> omega

theorem roundDiv_le_succ (num den : Nat) : roundDiv num den ≤ num / den + 1 := by
  rw [roundDiv]
  split <;> omega

/-- Rounding to whole numbers keeps order. -/
theorem roundDiv_mono {num num' : Nat} (h : num ≤ num') (den : Nat) :
    roundDiv num den ≤ roundDiv num' den := by
  rcases (Nat.div_le_div_right h : num / den ≤ num' / den).eq_or_lt with hquotient | hquotient
  · -- With the same quotient the rests are in order, and they are compared with the same half.
    have hrest : num % den ≤ num' % den := by
      have hnum := Nat.div_add_mod num den
      have hnum' := Nat.div_add_mod num' den
      rw [hquotient] at hnum
      omega
    rw [roundDiv, roundDiv, hquotient]
    split <;> split <;> omega
  · calc roundDiv num den
        ≤ num / den + 1 := roundDiv_le_succ num den
      _ ≤ num' / den := hquotient
      _ ≤ roundDiv num' den := div_le_roundDiv num' den

namespace Binary64

/-! ### Significands and places -/

/-- The place at which a quotient is rounded. -/
def placeOf (num den : Nat) : Nat := (num * one / den).log2 - 52

/-- The significand that a quotient is rounded to, before it is put into range. -/
def significandOf (num den : Nat) : Nat := roundDiv (num * one) (den * 2 ^ placeOf num den)

theorem ofRatio_eq_settle (negative : Bool) (num den : Nat) :
    ofRatio negative num den = settle negative (significandOf num den) (placeOf num den) := rfl

theorem quotient_eq (num den place : Nat) :
    num * one / (den * 2 ^ place) = num * one / den / 2 ^ place :=
  (Nat.div_div_eq_div_mul ..).symm

theorem significandOf_le (num den : Nat) : significandOf num den ≤ 2 * leadingBit := by
  have hlt := lt_of_log2_place (num * one / den)
  have hle := roundDiv_le_succ (num * one) (den * 2 ^ placeOf num den)
  rw [quotient_eq] at hle
  exact hle.trans hlt

/-- A significand above the lowest place has the leading bit. -/
theorem leadingBit_le_significandOf {num den : Nat} (h : 0 < placeOf num den) :
    leadingBit ≤ significandOf num den := by
  have hle := div_le_roundDiv (num * one) (den * 2 ^ placeOf num den)
  rw [quotient_eq] at hle
  refine le_trans ((Nat.le_div_iff_mul_le (Nat.two_pow_pos _)).2 ?_) hle
  have hpos : num * one / den ≠ 0 := by
    rintro hzero
    rw [placeOf, hzero] at h
    exact absurd h (by decide)
  have hlog : 52 + placeOf num den = (num * one / den).log2 := by
    rw [placeOf] at h ⊢
    omega
  have htop : leadingBit = 2 ^ 52 := rfl
  rw [htop, ← Nat.pow_add, hlog]
  exact Nat.log2_self_le hpos

theorem placeOf_mono {num num' : Nat} (h : num ≤ num') (den : Nat) :
    placeOf num den ≤ placeOf num' den := by
  have hquotient : num * one / den ≤ num' * one / den :=
    Nat.div_le_div_right (Nat.mul_le_mul_right one h)
  rw [placeOf, placeOf, Nat.log2_eq_log_two, Nat.log2_eq_log_two]
  exact Nat.sub_le_sub_right (Nat.log_mono_right hquotient) 52

theorem leadingBit_mul_pow_succ (place : Nat) :
    leadingBit * 2 ^ (place + 1) = 2 * leadingBit * 2 ^ place := by
  rw [Nat.pow_succ, Nat.mul_comm 2 leadingBit, Nat.mul_assoc, Nat.mul_comm 2]

/-- A significand with its place, after rounding has carried into the next place. -/
def carry (significand place : Nat) : Nat × Nat :=
  if significand = 2 * leadingBit then (leadingBit, place + 1) else (significand, place)

theorem settle_eq_carry (negative : Bool) (significand place : Nat) :
    settle negative significand place =
      if topPlace < (carry significand place).2 then .infinity negative
      else .finite negative (carry significand place).1 (carry significand place).2 := rfl

theorem carry_magnitude (significand place : Nat) :
    (carry significand place).1 * 2 ^ (carry significand place).2 = significand * 2 ^ place := by
  rw [carry]
  split
  · next h => rw [h, leadingBit_mul_pow_succ]
  · rfl

section Mono

variable {num num' : Nat} (h : num ≤ num') (den : Nat)

include h

theorem magnitude_mono : significandOf num den * 2 ^ placeOf num den ≤
    significandOf num' den * 2 ^ placeOf num' den := by
  rcases (placeOf_mono h den).eq_or_lt with hplace | hplace
  · rw [significandOf, significandOf, hplace]
    exact Nat.mul_le_mul_right _ (roundDiv_mono (Nat.mul_le_mul_right one h) _)
  · -- The higher place begins where the lower one ends.
    calc significandOf num den * 2 ^ placeOf num den
        ≤ 2 * leadingBit * 2 ^ placeOf num den :=
          Nat.mul_le_mul_right _ (significandOf_le num den)
      _ = leadingBit * 2 ^ (placeOf num den + 1) := (leadingBit_mul_pow_succ _).symm
      _ ≤ leadingBit * 2 ^ placeOf num' den :=
          Nat.mul_le_mul_left _ (Nat.pow_le_pow_right Nat.two_pos hplace)
      _ ≤ significandOf num' den * 2 ^ placeOf num' den :=
          Nat.mul_le_mul_right _ (leadingBit_le_significandOf (Nat.zero_lt_of_lt hplace))

/-- Nor does a carry leave a place behind. -/
theorem carry_place_mono :
    (carry (significandOf num den) (placeOf num den)).2 ≤
      (carry (significandOf num' den) (placeOf num' den)).2 := by
  have hle := placeOf_mono h den
  have htop := significandOf_le num' den
  rw [carry, carry]
  split
  · rename_i hcarry
    split
    · exact Nat.succ_le_succ hle
    · rename_i hnone
      -- At one place the larger number would have carried, too.
      refine Nat.lt_of_le_of_ne hle fun hplace => hnone ?_
      have hmagnitude := magnitude_mono h den
      rw [hcarry, hplace] at hmagnitude
      exact htop.antisymm (Nat.le_of_mul_le_mul_right hmagnitude (Nat.two_pow_pos _))
  · split
    · exact hle.trans (Nat.le_succ _)
    · exact hle

/-- Rounding keeps order. -/
theorem ofRatio_mono : (ofRatio false num den).le (ofRatio false num' den) = true := by
  have hplace := carry_place_mono h den
  have hmagnitude := magnitude_mono h den
  rw [← carry_magnitude, ← carry_magnitude (significandOf num' den)] at hmagnitude
  rw [ofRatio_eq_settle, ofRatio_eq_settle, settle_eq_carry, settle_eq_carry]
  generalize carry (significandOf num den) (placeOf num den) = x at *
  generalize carry (significandOf num' den) (placeOf num' den) = y at *
  by_cases htop : topPlace < y.2
  · rw [if_pos htop]
    split <;> rfl
  · rw [if_neg htop, if_neg fun hx => htop (Nat.lt_of_lt_of_le hx hplace)]
    exact decide_eq_true (Int.ofNat_le.2 hmagnitude)

end Mono

/-! ### Quotients -/

/-- A number without a sign. -/
inductive IsUnsigned : Binary64 → Prop
  | infinity : IsUnsigned (.infinity false)
  | finite (significand place : Nat) : IsUnsigned (.finite false significand place)

theorem isUnsigned_ofRatio (num den : Nat) : IsUnsigned (ofRatio false num den) := by
  rw [ofRatio_eq_settle, settle_eq_carry]
  split
  · exact .infinity
  · exact .finite _ _

theorem IsUnsigned.le_infinity {x : Binary64} (h : IsUnsigned x) :
    x.le (.infinity false) = true := by
  cases h <;> rfl

theorem IsUnsigned.isFinite_of_le {x y : Binary64} (hx : IsUnsigned x) (h : x.le y = true)
    (hfinite : y.isFinite = true) : x.isFinite = true := by
  cases hx with
  | infinity =>
    cases y with
    | finite => cases h
    | _ => cases hfinite
  | finite => rfl

theorem not_infinity_lt (x : Binary64) : (infinity false).lt x = false := by
  cases x <;> rfl

/-- A number that is no less is not below. -/
theorem not_lt_of_le {x y : Binary64} (hx : IsUnsigned x) (h : x.le y = true) :
    y.lt x = false := by
  cases hx with
  | infinity =>
    cases y with
    | nan => rfl
    | infinity b =>
      obtain rfl : b = false := by simpa [le] using h
      rfl
    | finite => cases h
  | finite =>
    cases y with
    | nan => rfl
    | infinity b =>
      obtain rfl : b = false := by simpa [le] using h
      rfl
    | finite => exact decide_eq_false (Int.not_lt.2 (of_decide_eq_true h))

/-- Quotients by a number above zero have no sign either. -/
theorem IsUnsigned.div {x y : Binary64} (hx : IsUnsigned x) (hy : IsUnsigned y)
    (hfinite : y.isFinite = true) (hunits : y.units ≠ 0) : IsUnsigned (x / y) := by
  change IsUnsigned (x.div y)
  cases hy with
  | infinity => cases hfinite
  | finite k r =>
    cases hx with
    | infinity => exact .infinity
    | finite m p =>
      rw [Binary64.div, if_neg hunits]
      exact isUnsigned_ofRatio _ _

section Division

variable {x x' y : Binary64} (hx : IsUnsigned x) (hx' : IsUnsigned x') (hy : IsUnsigned y)
  (h : x.le x' = true)

include hx hx' hy h

/-- Dividing by a number above zero keeps order. -/
theorem div_mono (hfinite : y.isFinite = true) (hunits : y.units ≠ 0) :
    (x / y).le (x' / y) = true := by
  cases hx' with
  | infinity =>
    have htop : .infinity false / y = .infinity false := by
      cases hy with
      | infinity => cases hfinite
      | finite => rfl
    rw [htop]
    exact (hx.div hy hfinite hunits).le_infinity
  | finite n q =>
    cases hx with
    | infinity => cases h
    | finite m p =>
      cases hy with
      | infinity => cases hfinite
      | finite k r =>
        change (Binary64.div _ _).le (Binary64.div _ _) = true
        rw [Binary64.div, Binary64.div, if_neg hunits, if_neg hunits]
        exact ofRatio_mono (Int.ofNat_le.1 (of_decide_eq_true h)) _

/-- By no number a quotient falls. -/
theorem not_div_lt : (x' / y).lt (x / y) = false := by
  by_cases habove : y.isFinite = true ∧ y.units ≠ 0
  · obtain ⟨hfinite, hunits⟩ := habove
    exact not_lt_of_le (hx.div hy hfinite hunits) (div_mono hx hx' hy h hfinite hunits)
  · change (x'.div y).lt (x.div y) = false
    cases hy with
    | infinity => cases hx <;> cases hx' <;> rfl
    | finite k r =>
      have hzero : (finite false k r).units = 0 := by
        by_contra hne
        exact habove ⟨rfl, hne⟩
      -- Of zero by zero there is no quotient, and all others by zero are infinite.
      have hquotient (n q : Nat) : (finite false n q).div (finite false k r) =
          if (finite false n q).units = 0 then .nan else .infinity false := by
        rw [Binary64.div, if_pos hzero]
        rfl
      cases hx' with
      | infinity => exact not_infinity_lt _
      | finite n q =>
        rw [hquotient]
        split
        · rfl
        · exact not_infinity_lt _

end Division

/-! ### Shares of counts -/

theorem natCast_mk {R : Type} (f : Nat → R) (n : Nat) : @Nat.cast R ⟨f⟩ n = f n := rfl

-- With `ofNat` in view, the kernel would unfold `one` before the cast.
theorem natCast_eq (n : Nat) : (n : Binary64) = ofRatio false n 1 :=
  (natCast_mk ofNat n).trans (by rw [ofNat])

theorem significandOf_pos {num den : Nat} (h : 0 < num * one / den) :
    0 < significandOf num den := by
  rcases (placeOf num den).eq_zero_or_pos with hplace | hplace
  · have hle := div_le_roundDiv (num * one) (den * 2 ^ placeOf num den)
    rw [quotient_eq, hplace, Nat.pow_zero, Nat.div_one] at hle
    rw [significandOf, hplace, Nat.pow_zero]
    exact h.trans_le hle
  · exact Nat.lt_of_lt_of_le (by decide) (leadingBit_le_significandOf hplace)

theorem units_finite (negative : Bool) (significand place : Nat) :
    (finite negative significand place).units = significand * 2 ^ place := rfl

/-- A quotient of at least one unit is not rounded to zero. -/
theorem units_ofRatio_ne_zero {num den : Nat} (h : 0 < num * one / den)
    (hfinite : (ofRatio false num den).isFinite = true) : (ofRatio false num den).units ≠ 0 := by
  have hmagnitude := carry_magnitude (significandOf num den) (placeOf num den)
  have hpos := Nat.mul_pos (significandOf_pos h) (Nat.two_pow_pos (placeOf num den))
  rw [← hmagnitude] at hpos
  rw [ofRatio_eq_settle, settle_eq_carry] at hfinite ⊢
  split at hfinite
  · cases hfinite
  · next htop =>
    rw [if_neg htop, units_finite]
    exact Nat.ne_of_gt hpos

theorem one_pos : 0 < one := by
  rw [one_eq_pow]
  exact pow_pos Nat.two_pos 1074

/-- A count above zero is a number above zero. -/
theorem units_natCast_ne_zero {n : Nat} (h : n ≠ 0) (hfinite : (n : Binary64).isFinite = true) :
    (n : Binary64).units ≠ 0 := by
  rw [natCast_eq] at hfinite ⊢
  have hone : 1 ≤ n * one := Nat.mul_pos (Nat.pos_of_ne_zero h) one_pos
  exact units_ofRatio_ne_zero (Nat.div_pos hone Nat.one_pos) hfinite

/-- What is no more than a count that is a number is one, too. -/
theorem isFinite_natCast_of_le {m n : Nat} (h : m ≤ n) (hfinite : (n : Binary64).isFinite = true) :
    (m : Binary64).isFinite = true := by
  rw [natCast_eq] at hfinite ⊢
  exact (isUnsigned_ofRatio m 1).isFinite_of_le (ofRatio_mono h 1) hfinite

section Shares

variable {part part' : Nat} (h : part ≤ part') (whole : Nat)

include h

/-- A share does not fall when its part grows. -/
theorem not_ratio_lt :
    Quantity.lt (Quantity.ratio part' whole : Binary64) (Quantity.ratio part whole) = false := by
  rw [Quantity.ratio, Quantity.ratio]
  split
  · exact lt_irrefl _
  · rw [natCast_eq, natCast_eq, natCast_eq]
    exact not_div_lt (isUnsigned_ofRatio part 1) (isUnsigned_ofRatio part' 1)
      (isUnsigned_ofRatio whole 1) (ofRatio_mono h 1)

/-- Shares of larger parts are no less, unless the whole is beyond all numbers. -/
theorem ratio_mono (hwhole : (whole : Binary64).isFinite = true) :
    Quantity.le (Quantity.ratio part whole : Binary64) (Quantity.ratio part' whole) = true := by
  rw [Quantity.ratio, Quantity.ratio]
  split
  · decide +kernel
  · next hne =>
    have hunits := units_natCast_ne_zero hne hwhole
    rw [natCast_eq] at hwhole hunits
    rw [natCast_eq, natCast_eq, natCast_eq]
    exact div_mono (isUnsigned_ofRatio part 1) (isUnsigned_ofRatio part' 1)
      (isUnsigned_ofRatio whole 1) (ofRatio_mono h 1) hwhole hunits

end Shares

/-! ### Shares between zero and one -/

theorem ofRatio_self {n : Nat} (h : 0 < n) : ofRatio false n n = 1 := by
  have hplace : placeOf n n = 1022 := by
    rw [placeOf, Nat.mul_div_cancel_left one h]
    decide +kernel
  have hone : one = leadingBit * 2 ^ placeOf n n := by
    have htop : 2 ^ (1074 - placeOf n n) = leadingBit := by
      rw [hplace]
      rfl
    rw [← htop]
    exact one_eq_mul (by omega)
  have hsignificand : significandOf n n = leadingBit := by
    rw [significandOf, hone, Nat.mul_left_comm]
    exact roundDiv_mul_self leadingBit (Nat.mul_pos h (Nat.two_pow_pos _))
  rw [ofRatio_eq_settle, hplace, hsignificand, one_eq_finite]
  exact settle_of_lt false (by decide) (by decide)

theorem div_self {x : Binary64} (hx : IsUnsigned x) (hfinite : x.isFinite = true)
    (hunits : x.units ≠ 0) : x / x = 1 := by
  cases hx with
  | infinity => cases hfinite
  | finite m p =>
    change Binary64.div _ _ = 1
    rw [Binary64.div, if_neg hunits]
    exact ofRatio_self (Nat.pos_of_ne_zero hunits)

theorem IsUnsigned.zero_le {x : Binary64} (h : IsUnsigned x) :
    Quantity.le Quantity.zero x = true := by
  cases h with
  | infinity => exact zero_le_infinity.2 rfl
  | finite m p => exact zero_le_finite.2 (Int.natCast_nonneg _)

/-- A number without a sign is nothing beside infinity. -/
theorem IsUnsigned.div_infinity {x : Binary64} (h : IsUnsigned x) (hfinite : x.isFinite = true) :
    x / .infinity false = .zero false := by
  cases h with
  | infinity => cases hfinite
  | finite m p => rfl

theorem IsUnsigned.eq_infinity {x : Binary64} (h : IsUnsigned x) (hfinite : ¬x.isFinite = true) :
    x = .infinity false := by
  cases h with
  | infinity => rfl
  | finite m p => exact absurd rfl hfinite

theorem isUnsigned_natCast (n : Nat) : IsUnsigned (n : Binary64) := by
  rw [natCast_eq]
  exact isUnsigned_ofRatio n 1

section Parts

variable {part whole : Nat} (hpart : (part : Binary64).isFinite = true)

include hpart

theorem zero_le_ratio :
    Quantity.le Quantity.zero (Quantity.ratio part whole : Binary64) = true := by
  rw [Quantity.ratio]
  split
  · decide +kernel
  · next hne =>
    by_cases hwhole : (whole : Binary64).isFinite = true
    · have hunits := units_natCast_ne_zero hne hwhole
      exact ((isUnsigned_natCast part).div (isUnsigned_natCast whole) hwhole hunits).zero_le
    · rw [(isUnsigned_natCast whole).eq_infinity hwhole,
        (isUnsigned_natCast part).div_infinity hpart]
      decide +kernel

/-- A part is at most the whole. If the whole is beyond all numbers, the share is zero. -/
theorem ratio_le_one (h : part ≤ whole) :
    Quantity.le (Quantity.ratio part whole : Binary64) ((1 : Nat) : Binary64) = true := by
  have hone : ((1 : Nat) : Binary64) = 1 := by decide +kernel
  by_cases hne : whole = 0
  · rw [Quantity.ratio, if_pos hne]
    decide +kernel
  by_cases hwhole : (whole : Binary64).isFinite = true
  · have hself : (Quantity.ratio whole whole : Binary64) = 1 := by
      rw [Quantity.ratio, if_neg hne]
      exact div_self (isUnsigned_natCast whole) hwhole (units_natCast_ne_zero hne hwhole)
    rw [hone, ← hself]
    exact ratio_mono h whole hwhole
  · rw [Quantity.ratio, if_neg hne, (isUnsigned_natCast whole).eq_infinity hwhole,
      (isUnsigned_natCast part).div_infinity hpart]
    decide +kernel

end Parts

end Binary64

end TypeBench
