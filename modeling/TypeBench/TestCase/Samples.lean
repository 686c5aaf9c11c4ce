import TypeBench.TestCase.Basic

/-!
# Built-in test cases

## Main definitions

* `TestCase.samples`: test cases on declarations, classes and closures.
-/

namespace TypeBench.TestCase

/-- The lines of a source unit. -/
def lines (parts : List String) : Text :=
  Text.join "\n" (parts.map Text.ofString)

/-- An entry of the ground truth of a built-in test case. Lines count from the first one. -/
def truth (identifier label : String) (lineBefore column : Nat) (scope : String) : GroundTruth :=
  ⟨identifier, label, { line := lineBefore + 1, column := column }, scope⟩

/-- Variables and one function. -/
def declarations : TestCase where
  id := "sample-001"
  name := "Basic variable declarations"
  source := lines [
    "const count = 42;",
    "const message = \"hello world\";",
    "const isActive = true;",
    "const items = [1, 2, 3];",
    "const user = \x7b name: \"John\", age: 30 \x7d;",
    "",
    "function processData(data) \x7b",
    "  const result = data.length;",
    "  return result * 2;",
    "\x7d"]
  truths := [
    truth "count" "number" 0 6 "global",
    truth "message" "string" 1 6 "global",
    truth "isActive" "boolean" 2 6 "global",
    truth "items" "number[]" 3 6 "global",
    truth "user" "object" 4 6 "global",
    truth "data" "unknown" 6 21 "function:processData",
    truth "result" "number" 7 8 "function:processData"]
  details := some {
    category := "basic-types"
    difficulty := .easy
    tags := ["primitives", "objects", "arrays"]
    description := none }

/-- A class and its use. -/
def classes : TestCase where
  id := "sample-002"
  name := "Class with methods"
  source := lines [
    "class Calculator \x7b",
    "  constructor(initialValue) \x7b",
    "    this.value = initialValue;",
    "  \x7d",
    "",
    "  add(num) \x7b",
    "    this.value += num;",
    "    return this;",
    "  \x7d",
    "",
    "  getValue() \x7b",
    "    return this.value;",
    "  \x7d",
    "\x7d",
    "",
    "const calc = new Calculator(10);",
    "const result = calc.add(5).getValue();"]
  truths := [
    truth "initialValue" "unknown" 1 14 "class:Calculator.constructor",
    truth "num" "unknown" 5 6 "class:Calculator.add",
    truth "calc" "Calculator" 15 6 "global",
    truth "result" "number" 16 6 "global"]
  details := some {
    category := "classes"
    difficulty := .medium
    tags := ["classes", "methods", "this"]
    description := none }

/-- Functions inside functions. -/
def closures : TestCase where
  id := "sample-003"
  name := "Closures and callbacks"
  source := lines [
    "function makeCounter(start) \x7b",
    "  let total = start;",
    "  const increment = (step) => \x7b",
    "    total += step;",
    "    return total;",
    "  \x7d;",
    "  return increment;",
    "\x7d",
    "",
    "const counter = makeCounter(0);",
    "const names = [\"a\", \"b\"].map(function format(item) \x7b",
    "  return item.toUpperCase();",
    "\x7d);"]
  truths := [
    truth "start" "number" 0 21 "function:makeCounter",
    truth "total" "number" 1 6 "function:makeCounter",
    truth "increment" "function" 2 8 "function:makeCounter",
    truth "step" "number" 2 21 "function:makeCounter.arrow",
    truth "counter" "function" 9 6 "global",
    truth "names" "string[]" 10 6 "global",
    truth "item" "string" 10 45 "global.format"]
  details := some {
    category := "closures"
    difficulty := .medium
    tags := ["arrow-functions", "callbacks", "closures"]
    description := some "Arrow functions and named function expressions" }

/-- The built-in test cases. -/
def samples : List TestCase := [declarations, classes, closures]

end TypeBench.TestCase
