import TypeBench.Markup.Tag
import TypeBench.Number.Mixed
import TypeBench.Value.Display

/-!
# Notices

What happens in the bench is told to listeners as notices: a name and the values that go with it.
Each part of the bench has a type of its own for its events, and writes them as notices. A notice
may also come from outside, with a name, fields and values that no event has; a listener then says
what is wrong with it.

## Main definitions

* `Notice`: a name and its fields.
* `NoticeKind`, `Listener`: the notices of one name, and those who take notices of some kinds.
* `NoticeFault`: what may be wrong with a notice.
* `Listener.check`: whether a listener takes a notice.
-/

namespace TypeBench

/-- Something that happened: its name and the values that go with it. -/
structure Notice where
  name : String
  fields : List (String × Value)

namespace Notice

/-- The value of a field; a field that is not there is null. -/
def field (notice : Notice) (name : String) : Value :=
  (notice.fields.lookup name).getD .null

/-- Whether a field counts as true. -/
def isOn (notice : Notice) (name : String) : Bool := (notice.field name).countsAsTrue

end Notice

/-- The notices of one name, which all have the same fields. -/
structure NoticeKind where
  name : String
  fields : List String
  deriving DecidableEq

/-- Those who take notices of some kinds, and the name under which messages speak of them. -/
structure Listener where
  name : String
  kinds : List NoticeKind

/-- What may be wrong with a notice. -/
inductive NoticeFault where
  | unknownKind (listener kind : String)
  | unexpectedField (listener kind field : String)
  | missingFields (listener kind : String) (fields : List String)
  | notRounded (value : Value)
  | notShare (value : Value)
  | notTotal (value : Value)
  | notName (kind : String)
  | notFinite (total : Binary64)
  | range (fault : RangeFault)
  | markup (fault : Markup.Tag.Fault)

namespace NoticeFault

/-- Names in quotes, as a list in words. -/
def enumeration (names : List String) : Text :=
  match (names.map fun name => "'" ++ Text.ofString name ++ "'").reverse with
  | [] => []
  | [last] => last
  | [last, first] => first ++ " and " ++ last
  | last :: before => Text.join ", " before.reverse ++ ", and " ++ last

/-- The words about a number of missing fields. -/
def missingText (fields : List String) : Text :=
  "missing " ++ Text.ofNat fields.length ++
    (if fields.length = 1 then " required positional argument: "
    else " required positional arguments: ") ++ enumeration fields

/-- The words about a total that is no number. -/
def totalText : Value → Text
  | .text t => "could not convert string to float: " ++ t.quoted
  | .bytes b => "could not convert string to float: " ++ Text.quotedBytes b
  | value =>
    "float() argument must be a string or a real number, not '" ++ value.kindName ++ "'"

/-- The words about what is wrong with a notice. -/
def message : NoticeFault → Text
  | unknownKind listener kind =>
    "'" ++ Text.ofString listener ++ "' object has no attribute '" ++ kind ++ "'"
  | unexpectedField listener kind field =>
    Text.ofString listener ++ "." ++ kind ++ "() got an unexpected keyword argument '" ++ field ++
      "'"
  | missingFields listener kind fields =>
    Text.ofString listener ++ "." ++ kind ++ "() " ++ missingText fields
  | notRounded value => "type " ++ value.kindName ++ " doesn't define __round__ method"
  | notShare (.text _) => "Unknown format code '%' for object of type 'str'"
  | notShare value => "unsupported format string passed to " ++ value.kindName ++ ".__format__"
  | notTotal value => totalText value
  | notName kind => "unhashable type: '" ++ Text.ofString kind ++ "'"
  | notFinite .nan => "cannot convert float NaN to integer"
  | notFinite _ => "cannot convert float infinity to integer"
  | range fault => fault.message
  | markup fault => fault.message

end NoticeFault

namespace Listener

/-- Whether a listener takes a notice: it knows the name, and the fields are those of its kind. -/
def check (listener : Listener) (notice : Notice) : Except NoticeFault Unit :=
  match listener.kinds.find? fun kind => kind.name = notice.name with
  | none => .error (.unknownKind listener.name notice.name)
  | some kind =>
    match notice.fields.find? fun (name, _) => !kind.fields.contains name with
    | some (name, _) => .error (.unexpectedField listener.name kind.name name)
    | none =>
      match kind.fields.filter fun name => (notice.fields.lookup name).isNone with
      | [] => .ok ()
      | missing => .error (.missingFields listener.name kind.name missing)

end Listener

end TypeBench
