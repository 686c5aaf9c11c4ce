import TypeBench.Number.Decimal
import TypeBench.Text.Digit
import TypeBench.Text.Integer
import TypeBench.Text.Utf8

/-!
# Numbers written as texts

A number has one plain form: a sign, digits, a point and an exponent, or a word for an infinity or
for `nan`. Around it there may be blanks, and in it underscores; records and totals differ in where
an underscore may stand.

## Main definitions

* `Text.plainNumber?`: reading the plain form.
* `Text.lenientNumber?`: reading a number of a record.
* `Text.number?`, `Text.numberOfBytes?`: reading a number of a total, where underscores stand
  between digits only.
-/

namespace TypeBench.Text

/-- A sign, if one is written, and the text after it. -/
def sign : Text → Bool × Text
  | c :: rest =>
    if c = '-' then (true, rest) else if c = '+' then (false, rest) else (false, c :: rest)
  | [] => (false, [])

/-- The exponent that is all of a text: a mark, a sign if one is written, and digits. -/
def exponent? : Text → Option Int
  | [] => some 0
  | mark :: rest =>
    let (negative, digits) := sign rest
    if (mark = 'e' ∨ mark = 'E') ∧ digits ≠ [] ∧ digits.all CodePoint.isDigit then
      some (signed negative (digitsToNat digits))
    else none

/-- The number that a text without underscores and blanks writes. -/
def plainNumber? (t : Text) : Option Binary64 :=
  let (negative, body) := sign t
  let word := body.map CodePoint.lower
  if word = ofString "inf" ∨ word = ofString "infinity" then some (.infinity negative)
  else if word = ofString "nan" then some .nan
  else
    let (whole, rest) := body.span CodePoint.isDigit
    let (places, rest) : Text × Text :=
      match rest with
      | c :: more => if c = '.' then more.span CodePoint.isDigit else ([], rest)
      | [] => ([], [])
    if whole = [] ∧ places = [] then none
    else (exponent? rest).map fun power =>
      Binary64.ofDecimal negative (digitsToNat (whole ++ places)) (power - places.length)

/-- The number that a text of a record writes: there may be blanks around it, and underscores
between any other characters. -/
def lenientNumber? (t : Text) : Option Binary64 :=
  match plainNumber? t.trim with
  | some x => some x
  | none => if t.underscoresSeparate then plainNumber? t.withoutUnderscores else none

/-- Whether every underscore of a text stands between two digits; `afterDigit` says whether the
text follows a digit. -/
def underscoresJoinDigits (afterDigit : Bool) : Text → Bool
  | [] => true
  | c :: rest =>
    (c ≠ '_' || (afterDigit && rest.head?.any CodePoint.isDigit)) &&
      underscoresJoinDigits c.isDigit rest

/-- The number that a text writes: it may stand between code points of a class, and underscores may
stand between its digits. -/
def numberWithin? (isOuter : CodePoint → Bool) (t : Text) : Option Binary64 :=
  if underscoresJoinDigits false t then plainNumber? (t.trimOf isOuter).withoutUnderscores
  else none

/-- The number that a text writes, in digits of any script. -/
def number? (t : Text) : Option Binary64 :=
  numberWithin? CodePoint.isBlank (t.map CodePoint.asDigit)

/-- The number that bytes write, in ASCII. -/
def numberOfBytes? (bytes : Bytes) : Option Binary64 :=
  (Utf8.decode? bytes).bind (numberWithin? CodePoint.isAsciiBlank)

end TypeBench.Text
