import TypeBench.Number.Binary64

/-!
# Quantities

Scores and times are computed in binary64 numbers. Nothing in the computation depends on that
choice, so it is written once for every type with the operations of arithmetic and an order, and
can be read in exact ratios as well.

## Main definitions

* `Quantity`: the operations that scores need.
* `Quantity.ratio`: a share of a count.
-/

namespace TypeBench

/-- The operations that scores and times need. The order and the test for zero are numerical, so
they may differ from equality of the representations. -/
class Quantity (R : Type) extends Add R, Sub R, Mul R, Div R, NatCast R where
  lt : R → R → Bool
  le : R → R → Bool
  isZero : R → Bool
  /-- The quantity nearest to an integer, unless that is out of range. -/
  ofInt? : Int → Option R
  /-- The quantity nearest to a quotient of integers, unless that is out of range. -/
  ofQuotient? : Int → Int → Option R

namespace Quantity

variable {R : Type} [Quantity R]

/-- Zero, as a count of nothing. -/
def zero : R := ((0 : Nat) : R)

/-- The share that a count has of another one; of nothing, every share is zero. -/
def ratio (part whole : Nat) : R :=
  if whole = 0 then zero else (part : R) / (whole : R)

end Quantity

/-- Binary64 numbers as quantities; zero is either of the two zeros. -/
instance : Quantity Binary64 where
  lt := Binary64.lt
  le := Binary64.le
  isZero := Binary64.isZero
  ofInt? i := (Binary64.ofInt i).finite?
  ofQuotient? i j := (Binary64.ofQuotient i j).finite?

theorem Binary64.ofInt?_eq (i : Int) : Quantity.ofInt? i = (Binary64.ofInt i).finite? := rfl

end TypeBench
