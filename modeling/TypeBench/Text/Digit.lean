import TypeBench.Text.Basic

/-!
# Decimal digits of all scripts

Many scripts write numbers with ten digits of their own, which stand in a row that starts with a
zero.

## Main definitions

* `CodePoint.zeros`: the zeros of the scripts, as of Unicode 14.
* `CodePoint.decimal?`: the value of a digit.
* `CodePoint.asDigit`: a digit in ASCII.

## Main results

* `CodePoint.decimal?_lt`: a digit stands for a number below ten.
* `CodePoint.decimal?_of_isDigit`: the digits of ASCII are among them.
-/

namespace TypeBench.CodePoint

/-- The zeros of the scripts with digits of their own, in rising order. -/
def zeros : List Nat :=
  [0x30, 0x660, 0x6F0, 0x7C0, 0x966, 0x9E6, 0xA66, 0xAE6, 0xB66, 0xBE6, 0xC66, 0xCE6, 0xD66,
    0xDE6, 0xE50, 0xED0, 0xF20, 0x1040, 0x1090, 0x17E0, 0x1810, 0x1946, 0x19D0, 0x1A80, 0x1A90,
    0x1B50, 0x1BB0, 0x1C40, 0x1C50, 0xA620, 0xA8D0, 0xA900, 0xA9D0, 0xA9F0, 0xAA50, 0xABF0,
    0xFF10, 0x104A0, 0x10D30, 0x11066, 0x110F0, 0x11136, 0x111D0, 0x112F0, 0x11450, 0x114D0,
    0x11650, 0x116C0, 0x11730, 0x118E0, 0x11950, 0x11C50, 0x11D50, 0x11DA0, 0x16A60, 0x16AC0,
    0x16B50, 0x1D7CE, 0x1D7D8, 0x1D7E2, 0x1D7EC, 0x1D7F6, 0x1E140, 0x1E2F0, 0x1E950, 0x1FBF0]

/-- The value of a decimal digit of any script. -/
def decimal? (c : CodePoint) : Option Nat :=
  (zeros.find? fun start => decide (start ≤ c.val ∧ c.val < start + 10)).map (c.val - ·)

theorem decimal?_lt {c : CodePoint} {n : Nat} (h : c.decimal? = some n) : n < 10 := by
  obtain ⟨start, hfind, rfl⟩ := Option.map_eq_some_iff.1 h
  have hrange := List.find?_some hfind
  rw [decide_eq_true_eq] at hrange
  omega

theorem decimal?_of_isDigit {c : CodePoint} (h : c.isDigit) : c.decimal? = some c.digit := by
  have hrange : 0x30 ≤ c.val ∧ c.val < 0x30 + 10 := by
    simp only [isDigit, Bool.and_eq_true, decide_eq_true_eq] at h
    omega
  simp [decimal?, zeros, digit, hrange]

/-- The ASCII digit of the same value as a digit; every other code point is left as it is. -/
def asDigit (c : CodePoint) : CodePoint :=
  match h : c.decimal? with
  | some n => ⟨0x30 + n, by have := decimal?_lt h; omega⟩
  | none => c

end TypeBench.CodePoint
