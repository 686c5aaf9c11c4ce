import TypeBench.Calendar.Basic
import TypeBench.Text.Quoted
import TypeBench.Text.Utf8

/-!
# Reading dates and moments

Dates and moments are written as ISO 8601 has it: a date by month and day or by week, each with
hyphens or without, then one character of any kind, and then a time of day and an offset, each with
colons or without. The reader is lenient in places. A fraction may follow a point, a comma or
nothing, what stands between the time of day and the offset is passed over, and a NUL ends the text.
Lengths are counted in bytes of UTF-8.

## Main definitions

* `Iso8601.date?`: the date at the start of a text.
* `Iso8601.dateLength`: the place of the character between date and time.
* `Iso8601.time?`: a time of day and an offset.
* `Date.ofText`, `Timestamp.ofText`: reading a whole text.
* `CalendarError.message`: the message about a text that cannot be read.
-/

namespace TypeBench

/-- The message about what is wrong with a date or a moment. -/
def CalendarError.message : CalendarError → Text
  | malformed t => "Invalid isoformat string: " ++ t.quoted
  | year number => "year " ++ Text.ofNat number ++ " is out of range"
  | month => "month must be in 1..12"
  | day => "day is out of range for month"
  | hour => "hour must be in 0..23"
  | minute => "minute must be in 0..59"
  | second => "second must be in 0..59"
  | offset size =>
    "offset must be a timedelta strictly between -timedelta(hours=24) and " ++
      "timedelta(hours=24), not " ++ durationText size ++ "."

namespace Iso8601

/-- The byte of an ASCII character. -/
def byte (c : Char) : UInt8 := UInt8.ofNat c.toNat

/-- Whether a byte is a decimal digit. -/
def isDigit (b : UInt8) : Bool := byte '0' ≤ b && b ≤ byte '9'

/-- A text ends where nothing follows, and at a NUL. -/
def isEnd (t : Bytes) : Bool := t.head?.getD 0 == 0

/-- The number of exactly `width` digits at the start of a text, and the rest. -/
def number? (width : Nat) (t : Bytes) : Option (Nat × Bytes) :=
  let digits := t.take width
  if digits.length = width ∧ digits.all isDigit then
    some (digits.foldl (fun n b => 10 * n + (b.toNat - 0x30)) 0, t.drop width)
  else none

/-- The text after a byte that it starts with. -/
def after? (b : UInt8) (t : Bytes) : Option Bytes :=
  if t.head? = some b then some (t.drop 1) else none

/-! ### Dates -/

/-- The date at the start of a text. Of `length` bytes that a date may have, one by week need not
have the last ones; it is a Monday then. -/
def date? (length : Nat) (t : Bytes) : Option Date := do
  let (year, rest) ← number? 4 t
  let isExtended := rest.head? = some (byte '-')
  let rest := if isExtended then rest.drop 1 else rest
  let next (rest : Bytes) : Option Bytes := if isExtended then after? (byte '-') rest else some rest
  match after? (byte 'W') rest with
  | some rest =>
    let (week, rest) ← number? 2 rest
    let day ←
      if t.length - rest.length < length then (number? 1 (← next rest)).map (·.1) else some 1
    Date.ofWeek? year week day
  | none =>
    let (month, rest) ← number? 2 rest
    let (day, _) ← number? 2 (← next rest)
    pure ⟨year, month, day⟩

/-- The length of the date at the start of a moment, by its form. A date by week leaves open whether
the day is written; a hyphen before two digits counts as the separator, and so does the first digit
of an odd number of them. -/
def dateLength (t : Bytes) : Nat :=
  if t.length = 7 then 7
  else if t[4]? = some (byte '-') then
    if t[5]? = some (byte 'W') ∧ (t[8]? ≠ some (byte '-') ∨ t[10]?.any isDigit) then 8 else 10
  else if t[4]? = some (byte 'W') then
    let digits := ((t.drop 7).takeWhile isDigit).length
    if digits < 2 then 7 + digits else if digits % 2 = 1 then 7 else 8
  else 8

/-! ### Times of day -/

/-- Numbers of two digits, and a part of a second in microseconds. `isWhole` tells that nothing is
left over. -/
structure Clock where
  numbers : List Nat
  microsecond : Nat
  isWhole : Bool

/-- A part of a second: six digits or less that are all of the text, or six and what follows. -/
def fraction? (t : Bytes) : Option Clock := do
  let width := min 6 t.length
  let (part, rest) ← number? width t
  pure ⟨[], part * Nat.pow 10 (6 - width), isEnd (rest.dropWhile isDigit)⟩

/-- At most `count` numbers, with colons between them or without. What follows the first number
decides on that, and a single byte at the end is left over. -/
def clock? : Nat → Option Bool → Bytes → Option Clock
  | 0, _, t => fraction? t
  | count + 1, colons?, t => do
    let (n, rest) ← number? 2 t
    match rest with
    | [] => pure ⟨[n], 0, true⟩
    | [b] => pure ⟨[n], 0, b == 0⟩
    | b :: more =>
      let hasColons := colons?.getD (b == byte ':')
      let later ←
        if hasColons ∧ b = byte ':' then clock? count hasColons more
        else if b = byte '.' ∨ b = byte ',' then fraction? more
        else if hasColons then none
        else clock? count hasColons rest
      pure { later with numbers := n :: later.numbers }

/-- The number at a place of a clock. -/
def Clock.number (c : Clock) (i : Nat) : Nat := c.numbers[i]?.getD 0

/-- The offset that a sign and a clock write; one without seconds is none at all. -/
def Clock.offset (isNegative : Bool) (c : Clock) : Int :=
  let seconds := c.number 0 * 3600 + c.number 1 * 60 + c.number 2
  let size : Int := (seconds * secondLength + c.microsecond : Nat)
  if seconds = 0 then 0 else if isNegative then -size else size

/-- A time of day and an offset, if one is written. -/
def time? (t : Bytes) : Option (Clock × Option Int) := do
  let isZone (b : UInt8) : Bool := b == byte '+' || b == byte '-' || b == byte 'Z'
  let clock ← clock? 3 none (t.takeWhile fun b => !isZone b)
  match t.dropWhile fun b => !isZone b with
  | [] => if clock.isWhole then some (clock, none) else none
  | sign :: rest =>
    if sign = byte 'Z' then (if isEnd rest then some (clock, some 0) else none)
    else
      let zone ← clock? 3 none rest
      if zone.isWhole then some (clock, some (zone.offset (sign == byte '-'))) else none

/-! ### Moments -/

/-- The number of bytes of the character that a byte begins. -/
def characterLength (b : UInt8) : Nat :=
  if b < 0x80 then 1 else if b &&& 0xF0 = 0xE0 then 3 else if b &&& 0xF0 = 0xF0 then 4 else 2

/-- The moment that a text writes; a date alone is its midnight. -/
def moment? (t : Bytes) : Option Timestamp := do
  let length := dateLength t
  let date ← date? length t
  match t.drop length with
  | [] => pure ⟨date, 0, 0, 0, 0, none⟩
  | b :: rest =>
    let (clock, offset) ← time? ((b :: rest).drop (characterLength b))
    pure ⟨date, clock.number 0, clock.number 1, clock.number 2, clock.microsecond, offset⟩

/-- A text with the first surrogate at a place where a separator may stand replaced. -/
def withPlainSeparator (t : Text) : Text :=
  match [7, 8, 10].find? fun i => t[i]?.any CodePoint.isSurrogate with
  | some i => t.set i 'T'
  | none => t

end Iso8601

/-- The date that a text writes. It has seven, eight or ten bytes, and what follows a shorter date
in them is passed over. -/
def Date.ofText (t : Text) : Except CalendarError Date :=
  match Utf8.encode t with
  | .error _ => .error (.malformed t)
  | .ok bytes =>
    match if bytes.length ∈ [7, 8, 10] then Iso8601.date? bytes.length bytes else none with
    | some date => date.check
    | none => .error (.malformed t)

/-- The moment that a text writes. -/
def Timestamp.ofText (t : Text) : Except CalendarError Timestamp :=
  match (Utf8.encode (Iso8601.withPlainSeparator t)).toOption.bind Iso8601.moment? with
  | some moment => moment.check
  | none => .error (.malformed t)

end TypeBench
