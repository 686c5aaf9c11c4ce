import TypeBench.Text.Basic

/-!
# Semantic hints

What the name of an identifier and the operator around it say about its type. Cues are searched
with regard to case, so `username` suggests a string and `userName` does not.

## Main definitions

* `Hint`: the hints, with their labels.
* `Hint.ofName`: the hints of a name, from the cues that it contains and from a plural ending.
* `Hint.ofOperator`: the hints of the expression that an identifier stands in.
* `Hint.semantic`: both together.
-/

namespace TypeBench

/-- What a name or an operator suggests about a type. -/
inductive Hint where
  | likelyNumber
  | likelyString
  | likelyBoolean
  | likelyArray
  | numericContext
  | stringContext
  | booleanContext
  deriving DecidableEq, Repr

namespace Hint

/-- The label of a hint. -/
def label : Hint → Text
  | likelyNumber => "likely-number"
  | likelyString => "likely-string"
  | likelyBoolean => "likely-boolean"
  | likelyArray => "likely-array"
  | numericContext => "numeric-context"
  | stringContext => "string-context"
  | booleanContext => "boolean-context"

/-- The parts of a name that suggest a hint. -/
def cues : Hint → List Text
  | likelyNumber => ["count", "length", "size", "index"]
  | likelyString => ["name", "title", "text", "message"]
  | likelyBoolean => ["is", "has", "can", "should"]
  | likelyArray => ["list", "array", "items"]
  | _ => []

/-- The hints that a name can give, in the order in which they are reported. -/
def ofNames : List Hint :=
  [likelyNumber, likelyString, likelyBoolean, likelyArray]

/-- Whether a name contains a cue of a hint. -/
def cuedBy (name : Text) (hint : Hint) : Bool :=
  hint.cues.any fun cue => cue.contains name

/-- A name that ends in `s` is taken for a plural. -/
def isPlural (name : Text) : Bool :=
  name.getLast? = some ('s' : CodePoint)

/-- The hints of a name: those it has a cue of, and an array for a plural without such a cue. -/
def ofName (name : Text) : List Hint :=
  let cued := ofNames.filter (cuedBy name)
  if !cued.contains likelyArray && isPlural name then cued ++ [likelyArray] else cued

/-- The operators of arithmetic. -/
def arithmeticOperators : List Text := ["+", "-", "*", "/", "%", "**"]

/-- The operators of comparison. -/
def comparisonOperators : List Text := ["==", "===", "!=", "!==", "<", ">", "<=", ">="]

/-- The hints of a binary operator. The plus sign also joins strings. -/
def ofBinaryOperator (operator : Text) : List Hint :=
  (if operator ∈ arithmeticOperators then [numericContext] else [])
    ++ (if operator = Text.ofString "+" then [stringContext] else [])
    ++ (if operator ∈ comparisonOperators then [booleanContext] else [])

/-- The hints of the expression around an identifier, from its kind and its operator. -/
def ofOperator (kind operator : Option Text) : List Hint :=
  match kind, operator with
  | some kind, some operator =>
    if kind = Text.ofString "binary_expression" then ofBinaryOperator operator
    else if kind = Text.ofString "unary_expression" ∧ operator = Text.ofString "!" then
      [booleanContext]
    else []
  | _, _ => []

/-- All hints of an identifier, each of them once. -/
def semantic (name : Text) (kind operator : Option Text) : List Hint :=
  (ofName name ++ ofOperator kind operator).eraseDups

end Hint

end TypeBench
