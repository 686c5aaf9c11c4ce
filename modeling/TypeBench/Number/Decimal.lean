import TypeBench.Number.Binary64
import TypeBench.Text.Basic

/-!
# Decimal text of numbers

A number is written in one of three ways: with the fewest significant digits that read back as the
same number, with a fixed number of decimal places, or with six significant digits and no trailing
zeros. All three start from the exact value and round a decimal grid point in whole numbers.

## Main definitions

* `Binary64.shortest`: the digits and exponent of the shortest decimal that reads back.
* `Binary64.text`: that decimal as text, positional from `0.0001` up to sixteen digits before the
  point and with an exponent outside.
* `Binary64.fixed`, `Binary64.percent`: a fixed number of decimal places.
* `Binary64.general`: six significant digits.
* `Binary64.ofDecimal`: the number nearest to a decimal.
-/

namespace TypeBench

/-- The number of decimal digits of a natural number; zero has one. -/
def decimalLength (n : Nat) : Nat := (Nat.toDigits 10 n).length

namespace Binary64

/-- The exponent `e` with `10 ^ e ≤ num / den < 10 ^ (e + 1)`, for a positive quotient. -/
def decimalExponent (num den : Nat) : Int :=
  if den ≤ num then (decimalLength (num / den) : Int) - 1
  else -(decimalLength ((den + num - 1) / num - 1) : Int)

/-- A quotient scaled by a power of ten, as numerator and denominator. -/
def scaleTen (num den : Nat) (exponent : Int) : Nat × Nat :=
  if exponent < 0 then (num, den * Nat.pow 10 exponent.natAbs)
  else (num * Nat.pow 10 exponent.natAbs, den)

/-! ### The fewest digits that read back -/

/-- The numbers that round to a finite number, in quarters of a least unit: least and greatest,
and whether these two round to it as well. -/
structure Neighbourhood where
  least : Nat
  greatest : Nat
  closed : Bool

/-- The neighbourhood of a finite number: half a place on either side, and half as much below the
least significand of a place. The ends belong to an even significand. -/
def neighbourhood (significand place : Nat) : Neighbourhood :=
  let unit := Nat.pow 2 place
  let middle := 4 * significand * unit
  let below := if significand = leadingBit ∧ 0 < place then unit else 2 * unit
  ⟨middle - below, middle + 2 * unit, significand % 2 == 0⟩

/-- Whether a number of quarter units, given as a quotient, lies in a neighbourhood. -/
def Neighbourhood.holds (n : Neighbourhood) (num den : Nat) : Bool :=
  if n.closed then n.least * den ≤ num && num ≤ n.greatest * den
  else n.least * den < num && num < n.greatest * den

/-- A decimal `digits * 10 ^ exponent`. -/
structure Decimal where
  digits : Nat
  exponent : Int
  deriving DecidableEq

/-- The point of a decimal grid that reads back as the number and is nearest to it, if one of the
number's two neighbours on the grid does; a tie goes to the even one. -/
def onGrid? (significand place : Nat) (exponent : Int) : Option Decimal :=
  let range := neighbourhood significand place
  let (num, den) := scaleTen (significand * Nat.pow 2 place) one (-exponent)
  let low := num / den
  let readsBack (point : Nat) : Bool :=
    let (above, below) := scaleTen (4 * point * one) 1 exponent
    range.holds above below
  let nearest := roundDiv num den
  let other := if nearest = low then low + 1 else low
  if readsBack nearest then some ⟨nearest, exponent⟩
  else if readsBack other then some ⟨other, exponent⟩
  else none

/-- The first grid from `digits` digits on that has a point reading back, `fuel` grids at most. -/
def shortestFrom (significand place : Nat) (top : Int) : Nat → Nat → Decimal
  | 0, digits =>
    let exponent := top + 1 - digits
    let (num, den) := scaleTen (significand * Nat.pow 2 place) one (-exponent)
    ⟨roundDiv num den, exponent⟩
  | fuel + 1, digits =>
    match onGrid? significand place (top + 1 - digits) with
    | some decimal => decimal
    | none => shortestFrom significand place top fuel (digits + 1)

/-- The shortest decimal that reads back as a positive finite number: seventeen digits always
do. -/
def shortest (significand place : Nat) : Decimal :=
  shortestFrom significand place (decimalExponent (significand * Nat.pow 2 place) one) 16 1

/-! ### Texts -/

/-- A minus sign for a negative number. -/
def signText (negative : Bool) : Text := Text.onlyIf negative "-"

/-- The words for an infinity and for `nan`. -/
def wordText (word : Binary64) : Text :=
  match word with
  | .infinity negative => signText negative ++ "inf"
  | _ => "nan"

/-- An exponent: its sign and at least two digits. -/
def exponentText (exponent : Int) : Text :=
  let digits := Text.ofNat exponent.natAbs
  (if exponent < 0 then "e-" else "e+") ++
    (if digits.length < 2 then "0" ++ digits else digits)

/-- Digits with a point after the first `before` of them. -/
def pointAfter (before : Nat) (digits : Text) : Text :=
  let fraction := digits.drop before
  digits.take before ++ Text.onlyIf (fraction ≠ []) ("." ++ fraction)

/-- The text of digits whose point stands after the first `before` digits, in positional form:
zeros fill the gap to the point. -/
def positional (digits : Text) (before : Int) : Text :=
  if before ≤ 0 then "0." ++ Text.fill before.natAbs '0' ++ digits
  else if digits.length ≤ before.toNat then
    digits ++ Text.fill (before.toNat - digits.length) '0' ++ ".0"
  else pointAfter before.toNat digits

/-- The digits of a natural number without its trailing zeros. -/
def trimZeros (digits : Text) : Text :=
  (digits.reverse.dropWhile fun c : CodePoint => c = '0').reverse

/-- The shortest text that reads back as the number. -/
def text : Binary64 → Text
  | .finite negative significand place =>
    if significand = 0 then signText negative ++ "0.0"
    else
      let decimal := shortest significand place
      let all := Text.ofNat decimal.digits
      let digits := trimZeros all
      let before : Int := all.length + decimal.exponent
      signText negative ++
        (if -4 < before ∧ before ≤ 16 then positional digits before
        else pointAfter 1 digits ++ exponentText (before - 1))
  | word => wordText word

/-- A natural number of units of `10 ^ -places`, with all its places. -/
def placesText (places n : Nat) : Text :=
  let digits := Text.ofNat n
  let filled := Text.fill (places + 1 - digits.length) '0' ++ digits
  pointAfter (filled.length - places) filled

/-- The number with a fixed number of decimal places, rounded from its exact value. -/
def fixed (places : Nat) : Binary64 → Text
  | x@(.finite negative _ _) =>
    signText negative ++ placesText places (roundDiv (x.units * Nat.pow 10 places) one)
  | word => wordText word

/-- The number times one hundred with two decimal places and a percent sign. -/
def percent (x : Binary64) : Text :=
  fixed 2 (x * 100) ++ "%"

/-- Digits and a point without trailing zeros after the point. -/
def trimFraction (t : Text) : Text :=
  if t.any (fun c : CodePoint => c = '.') then
    let trimmed := trimZeros t
    if trimmed.getLast? = some ('.' : CodePoint) then trimmed.dropLast else trimmed
  else t

/-- The number with six significant digits and no trailing zeros: positional from `0.0001` up to
six digits before the point, with an exponent outside. -/
def general : Binary64 → Text
  | x@(.finite negative significand _) =>
    if significand = 0 then signText negative ++ "0"
    else
      let top := decimalExponent x.units one
      let (num, den) := scaleTen x.units one (5 - top)
      let rounded := roundDiv num den
      let (digits, top) := if rounded = 1000000 then (100000, top + 1) else (rounded, top)
      signText negative ++
        (if -4 ≤ top ∧ top < 6 then trimFraction (positional (Text.ofNat digits) (top + 1))
        else trimFraction (pointAfter 1 (Text.ofNat digits)) ++ exponentText top)
  | word => wordText word

/-! ### Reading -/

/-- The number nearest to `digits * 10 ^ exponent`. Beyond `10 ^ 310` every decimal is an infinity
and below `10 ^ -330` zero, so the power of ten is only built between them. -/
def ofDecimal (negative : Bool) (digits : Nat) (exponent : Int) : Binary64 :=
  let top : Int := decimalLength digits + exponent
  if digits = 0 then zero negative
  else if 310 < top then .infinity negative
  else if top < -330 then zero negative
  else
    let (num, den) := scaleTen digits 1 exponent
    ofRatio negative num den

end Binary64

end TypeBench
