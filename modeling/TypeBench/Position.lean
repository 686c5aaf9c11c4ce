import TypeBench.Validation.Fields

/-!
# Positions in a source unit

An identifier is placed by its line, counted from one, and its column, counted in characters from
zero. Predictions and ground truth use the same convention, since they are compared exactly.

## Main definitions

* `SourcePosition`: a line and a column.
* `SourcePosition.check`: reading a position from a value.
-/

namespace TypeBench

/-- Where an identifier starts. -/
structure SourcePosition where
  line : Nat
  column : Nat
  one_le_line : 1 ≤ line := by omega
  deriving DecidableEq

namespace SourcePosition

/-- The line of a position, counted from one. -/
def lineRule (value : Value) : Checked { line : Nat // 1 ≤ line } :=
  (Field.integerAtLeast 1 value).andThen fun line =>
    if h : 1 ≤ line then .valid ⟨line, h⟩ else .broken (.atLeast 1)

/-- A position, read from a mapping. -/
def check : Value → Checked SourcePosition :=
  Field.record "SourcePosition" fun all =>
    (fun line column => ⟨line.val, column, line.property⟩)
      <$> Field.required "line" lineRule all
      <*> Field.required "column" (Field.integerAtLeast 0) all

/-- The order of reading: by line, and within a line by column. -/
def before (p q : SourcePosition) : Prop :=
  p.line < q.line ∨ (p.line = q.line ∧ p.column < q.column)

instance (p q : SourcePosition) : Decidable (p.before q) :=
  inferInstanceAs (Decidable (_ ∨ _))

end SourcePosition

end TypeBench
