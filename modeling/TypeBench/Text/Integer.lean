import TypeBench.Text.Basic

/-!
# Integers written as texts

An integer has one plain form: a minus sign if it is negative, and digits without a leading zero.
Arguments and records admit more than that form: blanks around it, a plus sign, leading zeros,
single underscores between digits, and a fraction of zeros. Such a text is first tidied into the
plain form, and the plain form is then read.

## Main definitions

* `Text.maxIntegerDigits`: the most digits of an integer that is read from a text.
* `Text.plainInteger`: reading the plain form.
* `Text.tidyInteger?`, `Text.lenientInteger`: the plain form behind a text, and its reading.
* `Text.integer?`: the integer that a text stands for, if any.

## Main results

* `Text.lenientInteger_of_number`: a text in plain form stands for what it is read as.
-/

namespace TypeBench

/-- What a text is when it is read as an integer. -/
inductive IntegerReading where
  | number (i : Int)
  | tooLong
  | malformed
  deriving DecidableEq

namespace Text

/-- The most digits of an integer that is read from a text. -/
def maxIntegerDigits : Nat := 4300

/-! ### Underscores -/

/-- Whether every underscore of a text stands alone between other characters. -/
def underscoresSeparate (t : Text) : Bool :=
  !(ofString "_").isPrefixOf t && !(ofString "_").isSuffixOf t && !contains "__" t

/-- A text without its underscores. -/
def withoutUnderscores (t : Text) : Text :=
  t.filter fun c : CodePoint => c ≠ '_'

/-! ### The plain form -/

/-- Whether a text starts with a minus sign, and the text after it. -/
def minus : Text → Bool × Text
  | [] => (false, [])
  | c :: rest => if c = '-' then (true, rest) else (false, c :: rest)

/-- A size with a sign. -/
def signed (negative : Bool) (size : Nat) : Int :=
  if negative then -(size : Int) else size

/-- The integer that a text writes in plain form. Too many digits are too long whatever follows
them. -/
def plainInteger (t : Text) : IntegerReading :=
  let (negative, body) := t.minus
  let digits := body.takeWhile CodePoint.isDigit
  let rest := body.dropWhile CodePoint.isDigit
  if digits.head? = some ('0' : CodePoint) then
    if body = ofString "0" then .number 0 else .malformed
  else if maxIntegerDigits < digits.length then .tooLong
  else if digits = [] ∨ rest ≠ [] then .malformed
  else .number (signed negative (digitsToNat digits))

/-! ### The lenient form -/

/-- The rest of an integer after leading zeros, with or without underscores among them. The last
character passed is kept before a point and at the end; a minus sign may follow zeros. -/
def afterZero? (last : CodePoint) : Text → Option Text
  | [] => some [last]
  | c :: rest =>
    if c = '0' ∨ c = '_' then afterZero? c rest
    else if c.isDigit ∨ c = '-' then some (c :: rest)
    else if c = '.' then some (last :: c :: rest)
    else none

/-- An integer without its leading zeros; it starts with a digit. -/
def withoutLeadingZeros? : Text → Option Text
  | [] => none
  | c :: rest =>
    if c = '0' then afterZero? c rest
    else if c.isDigit then some (c :: rest)
    else none

/-- A number without its fraction, if that has zeros only and at least one of them. -/
def withoutZeroFraction (t : Text) : Text :=
  let (whole, fraction) := t.span fun c : CodePoint => c ≠ '.'
  let places := fraction.drop 1
  if places ≠ [] ∧ places.all fun c : CodePoint => c = '0' then whole else t

/-- The plain form of a text that starts with a digit. -/
def tidyDigits? (t : Text) : Option Text :=
  (withoutLeadingZeros? t).bind fun body =>
    let body := withoutZeroFraction body
    if underscoresSeparate body then some (withoutUnderscores body) else none

/-- The plain form of a text: blanks around it are dropped, and so are a plus sign, leading zeros, a
fraction of zeros, and single underscores between digits. -/
def tidyInteger? (t : Text) : Option Text :=
  match t.trim with
  | [] => none
  | c :: rest =>
    if c = '-' then (tidyDigits? rest).map (c :: ·)
    else if c = '+' then tidyDigits? rest
    else tidyDigits? (c :: rest)

/-- What a text is when it is read as an integer in the lenient form. Only a text that is too long
as it stands counts as such. -/
def lenientInteger (t : Text) : IntegerReading :=
  match t.plainInteger with
  | .malformed =>
    match t.tidyInteger?.map plainInteger with
    | some (.number i) => .number i
    | _ => .malformed
  | reading => reading

theorem lenientInteger_of_number {t : Text} {i : Int} (h : t.plainInteger = .number i) :
    t.lenientInteger = .number i := by
  simp [lenientInteger, h]

/-- The integer that a text stands for. -/
def integer? (t : Text) : Option Int :=
  match t.lenientInteger with
  | .number i => some i
  | _ => none

theorem integer?_eq_some_iff {t : Text} {i : Int} :
    t.integer? = some i ↔ t.lenientInteger = .number i := by
  cases h : t.lenientInteger <;> simp [integer?, h]

end Text

end TypeBench
