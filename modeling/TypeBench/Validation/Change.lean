import TypeBench.Validation.Basic

/-!
# Changes to records

No field of a record can be changed once it is read. A name with a leading underscore is no field,
and a note under such a name is taken. Three of these names stand for the record itself: for its
kind, which is no value; for its parts together, which are a map; and for those who refer to it.

## Main definitions

* `ChangeFault`: what keeps a record from being changed.
* `ChangeFault.find?`: what is wrong with a change, if anything is.

## Main results

* `ChangeFault.find?_of_field`: every change under a name without an underscore is refused.
-/

namespace TypeBench

/-- What keeps a record from being changed. -/
inductive ChangeFault where
  | frozen (report : Report)
  | notKind (value : Value)
  | notParts (value : Value)
  | referrers (record : String)

namespace ChangeFault

/-- The words about a change that is refused. -/
def message : ChangeFault → Text
  | frozen report => report.message
  | notKind value =>
    "__class__ must be set to a class, not '" ++ Text.ofString value.kindName ++ "' object"
  | notParts value =>
    "__dict__ must be set to a dictionary, not a '" ++ Text.ofString value.kindName ++ "'"
  | referrers record =>
    "attribute '__weakref__' of '" ++ Text.ofString record ++ "' objects is not writable"

/-- What is wrong with a change that sets a name of a record to a value, if anything is. -/
def find? (record : String) (name : Text) (value : Value) : Option ChangeFault :=
  if name.head? ≠ some ('_' : CodePoint) then
    some (.frozen ⟨record, [⟨[.key name], .frozen⟩]⟩)
  else if name = Text.ofString "__class__" then some (.notKind value)
  else if name = Text.ofString "__dict__" then
    match value with
    | .map _ => none
    | _ => some (.notParts value)
  else if name = Text.ofString "__weakref__" then some (.referrers record)
  else none

theorem find?_of_field {name : Text} (h : name.head? ≠ some ('_' : CodePoint)) (record : String)
    (value : Value) :
    find? record name value = some (.frozen ⟨record, [⟨[.key name], .frozen⟩]⟩) := if_pos h

end ChangeFault

end TypeBench
