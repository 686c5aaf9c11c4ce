/-!
# Binary64 numbers

Ratios and times are binary64 numbers: a sign, a significand below `2 ^ 53` and a power of two, or
an infinity, or not a number. A finite number is a whole number of least units, one unit being
`2 ^ -1074`, so every operation is carried out exactly on whole numbers and rounded once, to the
nearest representable number, a tie to the even significand.

## Main definitions

* `Binary64`: the numbers; `Binary64.units` is the magnitude of a finite one in least units.
* `Nat.roundDiv`: a quotient rounded to the nearest whole number, a tie to the even one.
* `Binary64.ofRatio`: the number nearest to a quotient of natural numbers.
* the arithmetic operations, `Binary64.lt` and `Binary64.le`.

## Main results

* `Binary64.lt_irrefl`, `Binary64.lt_trans`, `Binary64.le_eq_not_lt`: the order on numbers.
-/

namespace TypeBench

/-- A quotient rounded to the nearest whole number, a tie to the even one. -/
def roundDiv (num den : Nat) : Nat :=
  let quotient := num / den
  let rest := num % den
  if 2 * rest < den ∨ (2 * rest = den ∧ quotient % 2 = 0) then quotient else quotient + 1

/-- A binary64 number. The finite number with significand `m` and place `p` has the magnitude
`m * 2 ^ p` in least units of `2 ^ -1074`. -/
inductive Binary64 where
  | nan
  | infinity (negative : Bool)
  | finite (negative : Bool) (significand place : Nat)
  deriving DecidableEq

namespace Binary64

/-- One is this many least units. -/
def one : Nat := Nat.pow 2 1074

/-- The least magnitude of significand that a place above zero has. -/
def leadingBit : Nat := Nat.pow 2 52

/-- The greatest place of a finite number. -/
def topPlace : Nat := 2045

/-- The zero of a given sign. -/
def zero (negative : Bool) : Binary64 := .finite negative 0 0

/-- A significand and a place put into range: a significand that rounding carried to `2 ^ 53`
moves up one place, and a place beyond the greatest gives an infinity. -/
def settle (negative : Bool) (significand place : Nat) : Binary64 :=
  let (significand, place) :=
    if significand = 2 * leadingBit then (leadingBit, place + 1) else (significand, place)
  if topPlace < place then .infinity negative else .finite negative significand place

/-- The number nearest to `num / den`, with the given sign. -/
def ofRatio (negative : Bool) (num den : Nat) : Binary64 :=
  let place := (num * one / den).log2 - 52
  settle negative (roundDiv (num * one) (den * Nat.pow 2 place)) place

/-- The number nearest to a natural number. -/
def ofNat (n : Nat) : Binary64 := ofRatio false n 1

/-- The number nearest to an integer. -/
def ofInt (i : Int) : Binary64 := ofRatio (i < 0) i.natAbs 1

/-- The number nearest to a quotient of integers. -/
def ofQuotient (i j : Int) : Binary64 := ofRatio ((i < 0) != (j < 0)) i.natAbs j.natAbs

instance (n : Nat) : OfNat Binary64 n := ⟨ofNat n⟩

instance : NatCast Binary64 := ⟨ofNat⟩

instance : Inhabited Binary64 := ⟨zero false⟩

/-- Whether a number is neither an infinity nor `nan`. -/
def isFinite : Binary64 → Bool
  | .finite .. => true
  | _ => false

/-- A number, unless it is beyond the finite ones. -/
def finite? (x : Binary64) : Option Binary64 := if x.isFinite then some x else none

theorem finite?_of_isFinite {x : Binary64} (h : x.isFinite) : x.finite? = some x := if_pos h

/-- The magnitude of a finite number in least units. -/
def units : Binary64 → Nat
  | .finite _ significand place => significand * Nat.pow 2 place
  | _ => 0

/-- Whether a number is one of the two zeros. -/
def isZero (x : Binary64) : Bool := x.isFinite && x.units == 0

/-- The sign bit; `nan` has none. -/
def isNegative : Binary64 → Bool
  | .finite negative _ _ => negative
  | .infinity negative => negative
  | .nan => false

/-- A finite number in least units, with its sign. -/
def signedUnits (x : Binary64) : Int :=
  if x.isNegative then -(x.units : Int) else x.units

/-- The number nearest to a whole number of least units; zero units have the given sign. -/
def ofUnits (zeroNegative : Bool) (i : Int) : Binary64 :=
  if i = 0 then zero zeroNegative else ofRatio (i < 0) i.natAbs one

/-- The number with the other sign. -/
def neg : Binary64 → Binary64
  | .nan => .nan
  | .infinity negative => .infinity !negative
  | .finite negative significand place => .finite (!negative) significand place

/-- The sum. Infinities of opposite signs have none. -/
def add : Binary64 → Binary64 → Binary64
  | .nan, _ => .nan
  | _, .nan => .nan
  | .infinity a, .infinity b => if a = b then .infinity a else .nan
  | .infinity a, .finite .. => .infinity a
  | .finite .., .infinity b => .infinity b
  | x@(.finite a _ _), y@(.finite b _ _) => ofUnits (a && b) (x.signedUnits + y.signedUnits)

/-- The difference. -/
def sub (x y : Binary64) : Binary64 := x.add y.neg

/-- The product. Zero times an infinity has none. -/
def mul (x y : Binary64) : Binary64 :=
  let negative := x.isNegative != y.isNegative
  match x, y with
  | .nan, _ => .nan
  | _, .nan => .nan
  | .infinity _, .infinity _ => .infinity negative
  | .infinity _, .finite _ m _ => if m = 0 then .nan else .infinity negative
  | .finite _ m _, .infinity _ => if m = 0 then .nan else .infinity negative
  | .finite .., .finite .. => ofRatio negative (x.units * y.units) (one * one)

/-- The quotient. Zero by zero and infinity by infinity have none. -/
def div (x y : Binary64) : Binary64 :=
  let negative := x.isNegative != y.isNegative
  match x, y with
  | .nan, _ => .nan
  | _, .nan => .nan
  | .infinity _, .infinity _ => .nan
  | .infinity _, .finite .. => .infinity negative
  | .finite .., .infinity _ => zero negative
  | .finite .., .finite .. =>
    if y.units = 0 then (if x.units = 0 then .nan else .infinity negative)
    else ofRatio negative x.units y.units

instance : Neg Binary64 := ⟨neg⟩
instance : Add Binary64 := ⟨add⟩
instance : Sub Binary64 := ⟨sub⟩
instance : Mul Binary64 := ⟨mul⟩
instance : Div Binary64 := ⟨div⟩

/-- The strict order; `nan` is below and above nothing. -/
def lt : Binary64 → Binary64 → Bool
  | .nan, _ => false
  | _, .nan => false
  | .infinity a, .infinity b => a && !b
  | .infinity a, .finite .. => a
  | .finite .., .infinity b => !b
  | x@(.finite ..), y@(.finite ..) => decide (x.signedUnits < y.signedUnits)

/-- The order with numerical equality: the two zeros are equal and `nan` equals nothing. -/
def le : Binary64 → Binary64 → Bool
  | .nan, _ => false
  | _, .nan => false
  | .infinity a, .infinity b => a || !b
  | .infinity a, .finite .. => a
  | .finite .., .infinity b => !b
  | x@(.finite ..), y@(.finite ..) => decide (x.signedUnits ≤ y.signedUnits)

@[simp] theorem lt_irrefl (x : Binary64) : x.lt x = false := by
  cases x with
  | nan => rfl
  | infinity a => cases a <;> rfl
  | finite a m p => simp [lt]

theorem lt_trans {x y z : Binary64} (hxy : x.lt y = true) (hyz : y.lt z = true) :
    x.lt z = true := by
  cases x <;> cases y <;> cases z <;> simp_all [lt] <;> omega

theorem lt_of_lt_of_le {x y z : Binary64} (hxy : x.lt y = true) (hyz : y.le z = true) :
    x.lt z = true := by
  cases x <;> cases y <;> cases z <;> simp_all [lt, le] <;> omega

/-- Of two numbers one is no more than the other, or it is above it. -/
theorem le_eq_not_lt {x y : Binary64} (hx : x ≠ .nan) (hy : y ≠ .nan) : x.le y = !y.lt x := by
  cases x with
  | nan => exact absurd rfl hx
  | infinity a =>
    cases y with
    | nan => exact absurd rfl hy
    | infinity b => cases a <;> cases b <;> rfl
    | finite b n q => cases a <;> rfl
  | finite a m p =>
    cases y with
    | nan => exact absurd rfl hy
    | infinity b => rfl
    | finite b n q => simp only [le, lt, ← Int.not_lt, decide_not]

/-- The whole number nearest to a finite number, a tie to the even one. -/
def round (x : Binary64) : Int :=
  let n := roundDiv x.units one
  if x.isNegative then -(n : Int) else n

/-- The number nearest to a finite number rounded to a number of decimal places. -/
def roundPlaces (places : Nat) : Binary64 → Binary64
  | x@(.finite negative _ _) =>
    ofRatio negative (roundDiv (x.units * Nat.pow 10 places) one) (Nat.pow 10 places)
  | x => x

/-- The integer that a finite number is, if it is one. -/
def toInt? (x : Binary64) : Option Int :=
  if x.isFinite && x.units % one == 0 then
    some (if x.isNegative then -(x.units / one : Nat) else (x.units / one : Nat))
  else none

end Binary64

end TypeBench
