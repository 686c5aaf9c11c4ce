import TypeBench.Json.Basic
import TypeBench.Text.Integer

/-!
# Reading JSON

A reader works on the rest of the text and returns what it read with the text after it, or the
rest at which it failed; the position of a failure is the length that was read by then. Beyond the
standard, the words `NaN`, `Infinity` and `-Infinity` are numbers, a surrogate escape may stand
alone, and the last of several members of one name counts. An integer may have 4300 digits. How
deep arrays and objects may be nested is a parameter of the reader.

## Main definitions

* `Json.Complaint`: the reasons for which a text is no document.
* `Json.ReadError`: a complaint with its position, or a limit that was passed.
* `Json.read`: the document of a text.
-/

namespace TypeBench.Json

/-- What is wrong with a text that is no document. -/
inductive Complaint where
  | value
  | memberName
  | colon
  | comma
  | afterEnd
  | openText
  | control
  | escape
  | unicodeEscape
  | byteOrderMark
  deriving DecidableEq

/-- The words of a complaint. -/
def Complaint.words : Complaint → String
  | .value => "Expecting value"
  | .memberName => "Expecting property name enclosed in double quotes"
  | .colon => "Expecting ':' delimiter"
  | .comma => "Expecting ',' delimiter"
  | .afterEnd => "Extra data"
  | .openText => "Unterminated string starting at"
  | .control => "Invalid control character at"
  | .escape => "Invalid \\escape"
  | .unicodeEscape => "Invalid \\uXXXX escape"
  | .byteOrderMark => "Unexpected UTF-8 BOM (decode using utf-8-sig)"

/-- A place in a text: line and column from one, and position from zero. -/
structure Place where
  line : Nat
  column : Nat
  position : Nat
  deriving DecidableEq

/-- The place after a stretch of text. -/
def Place.after (read : Text) : Place :=
  let lastLine := read.reverse.takeWhile fun c : CodePoint => c ≠ '\n'
  ⟨1 + read.countP (fun c : CodePoint => c = '\n'), lastLine.length + 1, read.length⟩

/-- Why a text could not be read: it is no document, or it passes a limit. -/
inductive ReadError where
  | malformed (complaint : Complaint) (place : Place)
  | longInteger (digits : Nat)
  | deepNesting (inObject : Bool)
  deriving DecidableEq

/-- The message of an error. -/
def ReadError.message : ReadError → Text
  | .malformed complaint place =>
    Text.ofString complaint.words ++ ": line " ++ Text.ofNat place.line ++ " column " ++
      Text.ofNat place.column ++ " (char " ++ Text.ofNat place.position ++ ")"
  | .longInteger digits =>
    "Exceeds the limit (4300 digits) for integer string conversion: value has " ++
      Text.ofNat digits ++
      " digits; use sys.set_int_max_str_digits() to increase the limit"
  | .deepNesting inObject =>
    "maximum recursion depth exceeded while decoding a JSON " ++
      Text.ofString (if inObject then "object" else "array") ++ " from a unicode string"

/-- The deepest nesting of arrays and objects where the reader is given no other. -/
def usualDepth : Nat := 988

/-- A failure inside the text: a complaint with the rest at which it arose, or a limit. -/
inductive Failure where
  | at (complaint : Complaint) (rest : Text)
  | limit (error : ReadError)

/-- The result of a reader: what was read and the text after it. -/
abbrev Reading (α : Type) := Except Failure (α × Text)

/-- The text after leading whitespace. -/
def skipBlank (t : Text) : Text :=
  t.dropWhile fun c : CodePoint => c = ' ' || c = '\t' || c = '\n' || c = '\r'

/-! ### Numbers -/

/-- The digits at the start of a text, and the rest. -/
def digits (t : Text) : Text × Text :=
  (t.takeWhile CodePoint.isDigit, t.dropWhile CodePoint.isDigit)

/-- The whole part of a number: a zero, or digits that do not start with one. -/
def wholePart? : Text → Option (Text × Text)
  | [] => none
  | c :: rest =>
    if c = '0' then some ([c], rest)
    else if c.isDigit then some (digits (c :: rest))
    else none

/-- The fraction of a number; it is empty where no digit follows a point. -/
def fraction : Text → Text × Text
  | point :: c :: rest =>
    if point = '.' ∧ c.isDigit then digits (c :: rest) else ([], point :: c :: rest)
  | t => ([], t)

/-- The exponent of a number, if digits follow the mark. -/
def exponent (t : Text) : Option Int × Text :=
  match t with
  | mark :: rest =>
    if mark = 'e' ∨ mark = 'E' then
      let (negative, unsigned) : Bool × Text :=
        match rest with
        | sign :: more =>
          if sign = '-' then (true, more) else if sign = '+' then (false, more) else (false, rest)
        | [] => (false, [])
      match digits unsigned with
      | ([], _) => (none, t)
      | (found, after) =>
        let size : Int := Text.digitsToNat found
        (some (if negative then -size else size), after)
    else (none, t)
  | [] => (none, [])

/-- A number without its sign. A fraction or an exponent makes it a binary64 number. -/
def unsignedNumber (negative : Bool) (start t : Text) : Reading Json :=
  match wholePart? t with
  | none => .error (.at .value start)
  | some (whole, rest) =>
    match fraction rest with
    | (places, rest) =>
      match exponent rest with
      | (power, rest) =>
        if places = [] ∧ power = none then
          if Text.maxIntegerDigits < whole.length then .error (.limit (.longInteger whole.length))
          else
            let size : Int := Text.digitsToNat whole
            .ok (.int (if negative then -size else size), rest)
        else
          .ok (.float (Binary64.ofDecimal negative (Text.digitsToNat (whole ++ places))
            (power.getD 0 - places.length)), rest)

/-- The scalars that are words. -/
def words : List (Text × Json) :=
  [("null", .null), ("true", .bool true), ("false", .bool false), ("NaN", .float .nan),
    ("Infinity", .float (.infinity false)), ("-Infinity", .float (.infinity true))]

/-- A word or a number. -/
def plainScalar (t : Text) : Reading Json :=
  match words.findSome? fun (word, value) => (t.after? word).map fun rest => (value, rest) with
  | some found => .ok found
  | none =>
    match t with
    | c :: rest => if c = '-' then unsignedNumber true t rest else unsignedNumber false t t
    | [] => .error (.at .value [])

/-! ### Texts -/

/-- The code point of a one-letter escape. -/
def simpleEscape? (c : CodePoint) : Option CodePoint :=
  if c = '"' ∨ c = '\\' ∨ c = '/' then some c
  else if c = 'b' then some '\x08'
  else if c = 'f' then some '\x0c'
  else if c = 'n' then some '\n'
  else if c = 'r' then some '\r'
  else if c = 't' then some '\t'
  else none

/-- The number that four hexadecimal digits write. -/
def hexQuad? (a b c d : CodePoint) : Option Nat := do
  pure ((((← a.hexDigit?) * 16 + (← b.hexDigit?)) * 16 + (← c.hexDigit?)) * 16 + (← d.hexDigit?))

/-- Whether a number is a surrogate that opens a pair. -/
def opensPair (n : Nat) : Bool := 0xD800 ≤ n && n ≤ 0xDBFF

/-- The number of a pair of surrogates. -/
def pairOf? (high low : Nat) : Option Nat :=
  if opensPair high && 0xDC00 ≤ low && low ≤ 0xDFFF then
    some (0x10000 + (high - 0xD800) * 0x400 + (low - 0xDC00))
  else none

/-- The code point of a Unicode escape whose four digits come next; `start` is the rest at its
`u`. A surrogate that opens a pair takes the escape after it along when that completes the pair. -/
def unicodeEscape (start : Text) : Text → Reading CodePoint
  | h1 :: h2 :: h3 :: h4 :: rest =>
    match hexQuad? h1 h2 h3 h4, rest with
    | none, _ => .error (.at .unicodeEscape start)
    | _, [] => .error (.at .unicodeEscape start)
    | some high, b :: u :: l1 :: l2 :: l3 :: l4 :: after =>
      if opensPair high ∧ b = '\\' ∧ u = 'u' ∧ after ≠ [] then
        match hexQuad? l1 l2 l3 l4 with
        | none => .error (.at .unicodeEscape (rest.drop 1))
        | some low =>
          match pairOf? high low with
          | some point => .ok (Utf8.pointOf point, after)
          | none => .ok (Utf8.pointOf high, rest)
      else .ok (Utf8.pointOf high, rest)
    | some high, _ => .ok (Utf8.pointOf high, rest)
  | _ => .error (.at .unicodeEscape start)

/-- The code point of an escape; `start` is the rest at its backslash and `opening` the rest at the
quote that opened the text. -/
def escape (opening start : Text) : Text → Reading CodePoint
  | [] => .error (.at .openText opening)
  | e :: rest =>
    if e = 'u' then unicodeEscape (e :: rest) rest
    else
      match simpleEscape? e with
      | some point => .ok (point, rest)
      | none => .error (.at .escape start)

/-- The rest of a text between quotes; `opening` is the rest at its opening quote, `read` what was
read of it, in reverse, and `fuel` bounds the steps. -/
def textAfter (opening : Text) (fuel : Nat) (read t : Text) : Reading Text :=
  match fuel, t with
  | 0, _ => .error (.at .openText opening)
  | _, [] => .error (.at .openText opening)
  | fuel + 1, c :: rest =>
    if c = '"' then .ok (read.reverse, rest)
    else if c = '\\' then
      match escape opening (c :: rest) rest with
      | .ok (point, rest) => textAfter opening fuel (point :: read) rest
      | .error failure => .error failure
    else if c.val < 0x20 then .error (.at .control (c :: rest))
    else textAfter opening fuel (c :: read) rest

/-! ### Documents -/

mutual

/-- A value at the start of a text. `fuel` bounds the steps and `depth` is the nesting still
allowed. -/
def value (fuel depth : Nat) (t : Text) : Reading Json :=
  match fuel with
  | 0 => .error (.at .value t)
  | fuel + 1 =>
    match t with
    | [] => .error (.at .value [])
    | c :: rest =>
      if c = '"' then
        match textAfter t fuel [] rest with
        | .ok (found, rest) => .ok (.text found, rest)
        | .error failure => .error failure
      else if c = '[' then
        match depth, skipBlank rest with
        | 0, _ => .error (.limit (.deepNesting false))
        | _, [] => .error (.at .value [])
        | depth + 1, first :: more =>
          if first = ']' then .ok (.array [], more) else items fuel depth [] (first :: more)
      else if c = '\x7b' then
        match depth, skipBlank rest with
        | 0, _ => .error (.limit (.deepNesting true))
        | _, [] => .error (.at .memberName [])
        | depth + 1, first :: more =>
          if first = '\x7d' then .ok (.object [], more)
          else memberList fuel depth [] (first :: more)
      else plainScalar t

/-- The items of an array from the next one on; `read` holds the earlier ones in reverse. -/
def items (fuel depth : Nat) (read : List Json) (t : Text) : Reading Json :=
  match fuel with
  | 0 => .error (.at .value t)
  | fuel + 1 =>
    match value fuel depth t with
    | .error failure => .error failure
    | .ok (item, rest) =>
      match skipBlank rest with
      | [] => .error (.at .comma [])
      | c :: more =>
        if c = ']' then .ok (.array (item :: read).reverse, more)
        else if c = ',' then items fuel depth (item :: read) (skipBlank more)
        else .error (.at .comma (c :: more))

/-- The members of an object from the next one on; `read` holds the earlier ones. -/
def memberList (fuel depth : Nat) (read : Named Json) (t : Text) : Reading Json :=
  match fuel with
  | 0 => .error (.at .value t)
  | fuel + 1 =>
    match t with
    | [] => .error (.at .memberName [])
    | quote :: opened =>
      if quote ≠ '"' then .error (.at .memberName t)
      else
        match textAfter t fuel [] opened with
        | .error failure => .error failure
        | .ok (name, rest) =>
          match skipBlank rest with
          | [] => .error (.at .colon [])
          | c :: more =>
            if c ≠ ':' then .error (.at .colon (c :: more))
            else
              match value fuel depth (skipBlank more) with
              | .error failure => .error failure
              | .ok (found, rest) =>
                let read := Named.put name found read
                match skipBlank rest with
                | [] => .error (.at .comma [])
                | d :: after =>
                  if d = '\x7d' then .ok (.object read, after)
                  else if d = ',' then memberList fuel depth read (skipBlank after)
                  else .error (.at .comma (d :: after))

end

/-- A failure inside a text as an error with its place. -/
def Failure.toError (t : Text) : Failure → ReadError
  | .at complaint rest =>
    .malformed complaint (Place.after (t.take (t.length - rest.length)))
  | .limit error => error

/-- The document that is all of a text, whitespace apart, with arrays and objects nested so deep at
most. -/
def read (t : Text) (maxDepth : Nat := usualDepth) : Except ReadError Json :=
  if t.head? = some ('\uFEFF' : CodePoint) then
    .error (.malformed .byteOrderMark (Place.after []))
  else
    match value (3 * t.length + 3) maxDepth (skipBlank t) with
    | .error failure => .error (failure.toError t)
    | .ok (document, rest) =>
      match skipBlank rest with
      | [] => .ok document
      | rest => .error ((Failure.at .afterEnd rest).toError t)

end TypeBench.Json
