import TypeBench.Number.Decimal
import TypeBench.Text.Quoted
import TypeBench.Value.Basic

/-!
# Values as text

A label may be given as a value of any kind, and messages show a value that was refused. A value
that stands alone is shown plainly; inside a sequence or a mapping, and wherever it must be told
from the words around it, it is shown in its written form, with texts in quotes.

## Main definitions

* `Value.written`: the written form.
* `Value.shown`: the plain form, which differs for texts and dates.
* `Value.kindName`: the name that messages give to the kind of a value.
-/

namespace TypeBench

/-- A list of texts between brackets, with commas. -/
def bracketed (opening closing : Text) (parts : List Text) : Text :=
  opening ++ Text.join ", " parts ++ closing

/-- The written form of a date. -/
def Date.written (d : Date) : Text :=
  bracketed "datetime.date(" ")" (([d.year, d.month, d.day]).map Text.ofNat)

namespace Timestamp

/-- The written form of an offset. -/
def offsetWritten (offset : Int) : Text :=
  if offset = 0 then "datetime.timezone.utc"
  else "datetime.timezone(" ++ durationText offset ++ ")"

/-- The written form of a moment: seconds and microseconds are left out while they are zero at the
end. -/
def written (t : Timestamp) : Text :=
  let small :=
    if t.microsecond ≠ 0 then [t.second, t.microsecond]
    else if t.second ≠ 0 then [t.second]
    else []
  let numbers :=
    [t.date.year, t.date.month, t.date.day, t.hour, t.minute] ++ small
  let zone := (t.offset.map fun o => [Text.ofString "tzinfo=" ++ offsetWritten o]).getD []
  bracketed "datetime.datetime(" ")" (numbers.map Text.ofNat ++ zone)

end Timestamp

namespace Value

/-- The written form of a boolean. -/
def boolWritten (b : Bool) : Text := if b then "True" else "False"

mutual

/-- The written form of a value. -/
def written : Value → Text
  | null => "None"
  | bool b => boolWritten b
  | int i => Text.ofInt i
  | float x => x.text
  | text t => t.quoted
  | bytes b => Text.quotedBytes b
  | date d => d.written
  | moment t => t.written
  | list items => bracketed "[" "]" (writtenItems items)
  | tuple [item] => "(" ++ written item ++ ",)"
  | tuple items => bracketed "(" ")" (writtenItems items)
  | map entries => bracketed "\x7b" "\x7d" (writtenEntries entries)

/-- The written forms of the items of a sequence. -/
def writtenItems : List Value → List Text
  | [] => []
  | item :: items => written item :: writtenItems items

/-- The written forms of the entries of a mapping. -/
def writtenEntries : List (Value × Value) → List Text
  | [] => []
  | (key, value) :: entries => (written key ++ ": " ++ written value) :: writtenEntries entries

end

/-- The plain form of a value. -/
def shown : Value → Text
  | text t => t
  | date d => d.text
  | moment t => t.text ' '
  | value => value.written

/-- The name that messages give to the kind of a value. -/
def kindName : Value → String
  | null => "NoneType"
  | bool _ => "bool"
  | int _ => "int"
  | float _ => "float"
  | text _ => "str"
  | bytes _ => "bytes"
  | date _ => "datetime.date"
  | moment _ => "datetime.datetime"
  | list _ => "list"
  | tuple _ => "tuple"
  | map _ => "dict"

end Value

end TypeBench
