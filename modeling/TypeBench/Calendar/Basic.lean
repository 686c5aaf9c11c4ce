import TypeBench.Text.Basic

/-!
# Dates and moments

A report is stamped with the moment it was made, and config data may hold dates. The calendar is
the Gregorian one, from the year 1 to the year 9999, and counts no leap seconds.

## Main definitions

* `Date`, `Timestamp`: a calendar date, and a moment with an offset from universal time if that is
  known.
* `Date.text`, `Timestamp.text`: the extended format of ISO 8601.
* `Date.ordinal`: the number of a day.
* `Date.ofYearDay`, `Date.ofWeek`: the date of a day of a year, and of a day of a week.
* `Timestamp.isSameInstant`: whether two moments are the same.
* `CalendarError`: what is wrong with a date or a moment.

## Main results

* `Timestamp.isSameInstant_self`: a moment is the same as itself.
-/

namespace TypeBench

/-- A calendar date. -/
structure Date where
  year : Nat
  month : Nat
  day : Nat
  deriving DecidableEq

/-- A moment: a date, a time of day and, if known, the offset from universal time in
microseconds. -/
structure Timestamp where
  date : Date
  hour : Nat
  minute : Nat
  second : Nat
  microsecond : Nat
  offset : Option Int
  deriving DecidableEq

/-- A number filled with zeros up to a width. -/
def Text.zeroFilled (width n : Nat) : Text :=
  let digits := ofNat n
  fill (width - digits.length) '0' ++ digits

/-- The microseconds of a second. -/
def secondLength : Nat := 1000000

/-- The microseconds of a day. -/
def dayLength : Nat := 86400 * secondLength

/-! ### Written forms of durations -/

/-- A part of the written form of a duration, left out if it is zero. -/
def durationPart (name : String) (size : Int) : List Text :=
  if size = 0 then [] else [Text.ofString name ++ "=" ++ Text.ofInt size]

/-- The written form of a duration, given in microseconds: whole days, which alone may be below
zero, seconds and microseconds. -/
def durationText (duration : Int) : Text :=
  let rest := duration.fmod dayLength
  let parts := durationPart "days" (duration.fdiv dayLength) ++
    durationPart "seconds" (rest.fdiv secondLength) ++
    durationPart "microseconds" (rest.fmod secondLength)
  let shown : Text := if parts = [] then "0" else Text.join ", " parts
  "datetime.timedelta(" ++ shown ++ ")"

/-- What is wrong with a date or a moment: its text, or the part that is out of range. -/
inductive CalendarError where
  | malformed (t : Text)
  | year (number : Nat)
  | month
  | day
  | hour
  | minute
  | second
  | offset (size : Int)
  deriving DecidableEq

namespace Date

/-! ### Texts -/

/-- The date as `YYYY-MM-DD`. -/
def text (d : Date) : Text :=
  Text.zeroFilled 4 d.year ++ "-" ++ Text.zeroFilled 2 d.month ++ "-" ++ Text.zeroFilled 2 d.day

/-- The date as year, month and day without marks between them, for file names. The year has no
leading zeros. -/
def compact (d : Date) : Text :=
  Text.ofNat d.year ++ Text.zeroFilled 2 d.month ++ Text.zeroFilled 2 d.day

/-! ### Days -/

/-- A year with a leap day. -/
def isLeap (year : Nat) : Bool :=
  year % 4 == 0 && (year % 100 != 0 || year % 400 == 0)

/-- The lengths of the months of a year. -/
def monthLengths (year : Nat) : List Nat :=
  [31, if isLeap year then 29 else 28, 31, 30, 31, 30, 31, 31, 30, 31, 30, 31]

/-- The length of a month; a month that is not one of the twelve has no days. -/
def monthLength (year month : Nat) : Nat :=
  if month = 0 then 0 else (monthLengths year)[month - 1]?.getD 0

/-- The length of a year. -/
def yearLength (year : Nat) : Nat := if isLeap year then 366 else 365

/-- The number of days before a year, counted from the year 1. -/
def daysBefore (year : Nat) : Int :=
  let past : Int := (year : Int) - 1
  365 * past + past.fdiv 4 - past.fdiv 100 + past.fdiv 400

/-- The number of a day, counted from the first day of the year 1, which has number one. -/
def ordinal (d : Date) : Int :=
  let passed := ((monthLengths d.year).take (d.month - 1)).foldl (· + ·) 0
  daysBefore d.year + (passed + d.day : Nat)

/-- The date of a day that is counted from the first day of a month. -/
def ofMonthDay (year month day : Nat) : List Nat → Date
  | [] => ⟨year, month, day⟩
  | length :: lengths =>
    if day ≤ length then ⟨year, month, day⟩ else ofMonthDay year (month + 1) (day - length) lengths

/-- The date of a day that is counted from the first day of a year. It may lie in the year before or
after. -/
def ofYearDay (year : Nat) (day : Int) : Date :=
  if day < 1 then
    ofMonthDay (year - 1) 1 (day + yearLength (year - 1)).toNat (monthLengths (year - 1))
  else if (yearLength year : Int) < day then
    ofMonthDay (year + 1) 1 (day - yearLength year).toNat (monthLengths (year + 1))
  else ofMonthDay year 1 day.toNat (monthLengths year)

/-! ### Weeks -/

/-- The weekday on which a year begins; Monday is zero. -/
def firstWeekday (year : Nat) : Nat := ((daysBefore year).fmod 7).toNat

/-- The number of weeks of a year: 53 if it begins on a Thursday, or on a Wednesday with a leap
day. -/
def weekCount (year : Nat) : Nat :=
  let weekday := firstWeekday year
  if weekday = 3 ∨ (weekday = 2 ∧ isLeap year) then 53 else 52

/-- The day of a year on which its first week begins. That week holds the first Thursday, so it may
begin in the year before. -/
def firstMonday (year : Nat) : Int :=
  let weekday : Int := firstWeekday year
  if weekday ≤ 3 then 1 - weekday else 8 - weekday

/-- The date of a day of a week. Week and day are counted from one; the year zero has no months. -/
def ofWeek? (year week day : Nat) : Option Date :=
  if week = 0 ∨ weekCount year < week ∨ day = 0 ∨ 7 < day then none
  else if year = 0 then some ⟨1, 0, 0⟩
  else some (ofYearDay year (firstMonday year + 7 * (week - 1 : Nat) + (day - 1 : Nat)))

/-! ### Ranges -/

/-- A date whose parts are in range. -/
def check (d : Date) : Except CalendarError Date :=
  if d.year = 0 ∨ 9999 < d.year then .error (.year d.year)
  else if d.month = 0 ∨ 12 < d.month then .error .month
  else if d.day = 0 ∨ monthLength d.year d.month < d.day then .error .day
  else .ok d

end Date

namespace Timestamp

/-- An offset as a sign, hours and minutes, and smaller parts if there are any. -/
def offsetText (offset : Int) : Text :=
  let size := offset.natAbs
  let seconds := size / secondLength
  let part := size % secondLength
  let sign : Text := if offset < 0 then "-" else "+"
  sign ++ Text.zeroFilled 2 (seconds / 3600) ++ ":" ++ Text.zeroFilled 2 (seconds / 60 % 60) ++
    Text.onlyIf (seconds % 60 ≠ 0 ∨ part ≠ 0) (":" ++ Text.zeroFilled 2 (seconds % 60)) ++
    Text.onlyIf (part ≠ 0) ("." ++ Text.zeroFilled 6 part)

/-- The time of day, without parts of a second. -/
def clockText (t : Timestamp) : Text :=
  Text.zeroFilled 2 t.hour ++ ":" ++ Text.zeroFilled 2 t.minute ++ ":" ++
    Text.zeroFilled 2 t.second

/-- The moment in ISO 8601, with a separator between date and time. A part of a second is written
when there is one. -/
def text (separator : CodePoint) (t : Timestamp) : Text :=
  t.date.text ++ [separator] ++ t.clockText ++
    Text.onlyIf (t.microsecond ≠ 0) ("." ++ Text.zeroFilled 6 t.microsecond) ++
    (t.offset.map offsetText).getD []

/-- The moment as a log has it: to the microsecond, in universal time. -/
def stamp (t : Timestamp) : Text :=
  t.date.text ++ "T" ++ t.clockText ++ "." ++ Text.zeroFilled 6 t.microsecond ++ "Z"

/-- The microseconds up to a moment by its own clock. -/
def clockReading (t : Timestamp) : Int :=
  let seconds : Int := t.date.ordinal * 86400 + (t.hour * 3600 + t.minute * 60 + t.second : Nat)
  seconds * secondLength + t.microsecond

/-- Whether two moments are the same: by their clocks if neither offset is known, and by universal
time if both are. -/
def isSameInstant (s t : Timestamp) : Bool :=
  match s.offset, t.offset with
  | none, none => s.clockReading == t.clockReading
  | some a, some b => s.clockReading - a == t.clockReading - b
  | _, _ => false

theorem isSameInstant_self (t : Timestamp) : t.isSameInstant t = true := by
  cases h : t.offset <;> simp [isSameInstant, h]

/-- A moment whose parts are in range. The offset is looked at first; it is smaller than a day. -/
def check (t : Timestamp) : Except CalendarError Timestamp := do
  if let some offset := t.offset then
    if dayLength ≤ offset.natAbs then throw (.offset offset)
  let _ ← t.date.check
  if 23 < t.hour then throw .hour
  if 59 < t.minute then throw .minute
  if 59 < t.second then throw .second
  return t

end Timestamp

end TypeBench
