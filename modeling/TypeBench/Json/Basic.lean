import TypeBench.Named
import TypeBench.Number.Decimal
import TypeBench.Value.Basic

/-!
# JSON documents

A document is a tree of scalars, arrays and objects. Whole numbers and binary64 numbers are kept
apart, and an object keeps the order of its members.

## Main definitions

* `Json`: the documents.
* `Json.member?`: the value of a member.
* `Json.toValue`: a document as a value of no fixed type.
-/

namespace TypeBench

/-- A JSON document. -/
inductive Json where
  | null
  | bool (b : Bool)
  | int (i : Int)
  | float (x : Binary64)
  | text (t : Text)
  | array (items : List Json)
  | object (members : List (Text × Json))

namespace Json

instance : Inhabited Json := ⟨null⟩

instance : Coe Text Json := ⟨text⟩

instance : Coe String Json := ⟨fun s => text s⟩

/-- An object from member names given as character strings. -/
def ofMembers (members : List (String × Json)) : Json :=
  object (members.map fun (name, value) => (Text.ofString name, value))

/-- The members of an object; no other document has any. -/
def members : Json → Named Json
  | object members => members
  | _ => []

/-- The value of the first member of a name. -/
def member? (name : Text) (document : Json) : Option Json :=
  document.members.lookup name

mutual

/-- A document as a value of no fixed type. -/
def toValue : Json → Value
  | null => .null
  | bool b => .bool b
  | int i => .int i
  | float x => .float x
  | text t => .text t
  | array items => .list (toValues items)
  | object members => .map (toEntries members)

/-- The items of an array as values. -/
def toValues : List Json → List Value
  | [] => []
  | item :: items => toValue item :: toValues items

/-- The members of an object as entries. -/
def toEntries : List (Text × Json) → List (Value × Value)
  | [] => []
  | (name, value) :: members => (.text name, toValue value) :: toEntries members

end

end Json

end TypeBench
