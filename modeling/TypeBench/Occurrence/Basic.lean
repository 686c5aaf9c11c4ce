import TypeBench.Position

/-!
# Occurrences

An occurrence is an identifier of a source unit that may bear a value, with all that an approach
may go by. It carries no type.

## Main definitions

* `Occurrence`: name, place and surroundings of an identifier.
* `Occurrence.check`: reading an occurrence from a value.
-/

namespace TypeBench

/-- An identifier that may bear a value. -/
structure Occurrence where
  name : Text
  position : SourcePosition
  scope : Text
  context : Text
  hints : List Text
  usages : List Text
  deriving DecidableEq

/-- An occurrence, read from a mapping. -/
def Occurrence.check : Value → Checked Occurrence :=
  Field.record "IdentifierOccurrence" fun all =>
    Occurrence.mk
      <$> Field.required "name" Field.nonEmptyText all
      <*> Field.required "position" SourcePosition.check all
      <*> Field.required "scope" Field.text all
      <*> Field.required "syntactic_context" Field.text all
      <*> Field.withDefault "semantic_hints" [] (Field.list Field.text) all
      <*> Field.withDefault "usage_patterns" [] (Field.list Field.text) all

end TypeBench
