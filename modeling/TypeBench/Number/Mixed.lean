import TypeBench.Number.Quantity

/-!
# Whole and measured numbers

Scores and times may be handed over as whole numbers. Whole numbers are computed with exactly,
however large they are; where one meets a quantity, it becomes the nearest quantity first, and a
quotient is always a quantity. A whole number or a quotient may be too large for one.

## Main definitions

* `Mixed`: a whole number or a quantity.
* `RangeFault`: what is too large for a quantity.
* `Mixed.add`, `Mixed.sub`, `Mixed.mul`, `Mixed.div`: arithmetic.

## Main results

* `Mixed.combine_measured`: on quantities the arithmetic is that of quantities.
-/

namespace TypeBench

/-- What is too large for a quantity. -/
inductive RangeFault where
  | integer
  | quotient
  deriving DecidableEq

/-- The words about what is too large. -/
def RangeFault.message : RangeFault → String
  | integer => "int too large to convert to float"
  | quotient => "integer division result too large for a float"

/-- A whole number, or a quantity. -/
inductive Mixed (R : Type) where
  | whole (i : Int)
  | measured (x : R)
  deriving DecidableEq

namespace Mixed

variable {R : Type}

/-- Zero, as a whole number. -/
def zero : Mixed R := .whole 0

variable [Quantity R]

/-- The quantity nearest to a number. -/
def quantity : Mixed R → Except RangeFault R
  | whole i =>
    match Quantity.ofInt? i with
    | some x => .ok x
    | none => .error .integer
  | measured x => .ok x

theorem quantity_whole {i : Int} {x : R} (h : Quantity.ofInt? i = some x) :
    quantity (.whole i) = .ok x := by
  rw [quantity, h]

/-- Whether a number is zero. -/
def isZero : Mixed R → Bool
  | whole i => i == 0
  | measured x => Quantity.isZero x

/-- An operation on numbers that is exact on whole ones. -/
def combine (exact : Int → Int → Int) (rounded : R → R → R) :
    Mixed R → Mixed R → Except RangeFault (Mixed R)
  | whole i, whole j => .ok (.whole (exact i j))
  | x, y => do return .measured (rounded (← x.quantity) (← y.quantity))

/-- The sum. -/
def add : Mixed R → Mixed R → Except RangeFault (Mixed R) := combine (· + ·) (· + ·)

/-- The difference. -/
def sub : Mixed R → Mixed R → Except RangeFault (Mixed R) := combine (· - ·) (· - ·)

/-- The product. -/
def mul : Mixed R → Mixed R → Except RangeFault (Mixed R) := combine (· * ·) (· * ·)

/-- The quotient, as a quantity. -/
def div : Mixed R → Mixed R → Except RangeFault R
  | whole i, whole j =>
    match Quantity.ofQuotient? i j with
    | some x => .ok x
    | none => .error .quotient
  | x, y => do return (← x.quantity) / (← y.quantity)

theorem combine_whole (exact : Int → Int → Int) (rounded : R → R → R) (i j : Int) :
    combine exact rounded (.whole i) (.whole j) = .ok (.whole (exact i j)) := rfl

theorem combine_measured (exact : Int → Int → Int) (rounded : R → R → R) (x y : R) :
    combine exact rounded (.measured x) (.measured y) = .ok (.measured (rounded x y)) := rfl

end Mixed

end TypeBench
