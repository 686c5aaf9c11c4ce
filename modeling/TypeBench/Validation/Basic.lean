import TypeBench.Value.Display

/-!
# Problems of a value

A record is read from a value of no fixed type. Reading goes on after a problem, so that all
problems of a record are reported together, each with the way to the part that it concerns.

## Main definitions

* `Problem`: a broken rule and the way to the part that breaks it.
* `Checked`: the outcome of a check, either a result or the problems found.
* `Report`: the problems of one record.

## Main results

* `Checked.seq_invalid_invalid`: the problems of two parts are those of the first and then those of
  the second.
-/

namespace TypeBench

/-- One step of the way to a part of a value: the key of an entry or the index of an item. -/
inductive Step where
  | key (name : Text)
  | index (i : Int)
  deriving DecidableEq

/-- The rules that a value may break. -/
inductive Rule where
  | missing
  | mapping
  | sequence
  | record (name : String)
  | text
  | unicode
  | nonEmpty
  | integer
  | integerText
  | integerSize
  | integral
  | finite
  | number
  | numberText
  | atLeast (bound : Nat)
  | atMost (bound : Nat)
  | member (choices : List String)
  | literal (choices : List String)
  | path
  | someEntry
  | pathGiven (source : Text)
  | frozen
  deriving DecidableEq

/-- Choices in quotes, the last one after an "or". -/
def Rule.choicesText : List String → Text
  | [] => []
  | [choice] => "'" ++ Text.ofString choice ++ "'"
  | [first, last] =>
    "'" ++ Text.ofString first ++ "' or '" ++ Text.ofString last ++ "'"
  | first :: rest => "'" ++ Text.ofString first ++ "', " ++ choicesText rest

/-- The short name of a rule. -/
def Rule.code : Rule → String
  | missing => "missing"
  | mapping => "dict_type"
  | sequence => "list_type"
  | record _ => "model_type"
  | text => "string_type"
  | unicode => "string_unicode"
  | nonEmpty => "string_too_short"
  | integer => "int_type"
  | integerText => "int_parsing"
  | integerSize => "int_parsing_size"
  | integral => "int_from_float"
  | finite => "finite_number"
  | number => "float_type"
  | numberText => "float_parsing"
  | atLeast _ => "greater_than_equal"
  | atMost _ => "less_than_equal"
  | member _ => "enum"
  | literal _ => "literal_error"
  | path => "path_type"
  | someEntry => "too_short"
  | pathGiven _ => "value_error"
  | frozen => "frozen_instance"

/-- The message about a rule that a value breaks. -/
def Rule.message : Rule → Text
  | missing => "Field required"
  | mapping => "Input should be a valid dictionary"
  | sequence => "Input should be a valid list"
  | record name =>
    "Input should be a valid dictionary or instance of " ++ Text.ofString name
  | text => "Input should be a valid string"
  | unicode => "Input should be a valid string, unable to parse raw data as a unicode string"
  | nonEmpty => "String should have at least 1 character"
  | integer => "Input should be a valid integer"
  | integerText => "Input should be a valid integer, unable to parse string as an integer"
  | integerSize => "Unable to parse input string as an integer, exceeded maximum size"
  | integral => "Input should be a valid integer, got a number with a fractional part"
  | finite => "Input should be a finite number"
  | number => "Input should be a valid number"
  | numberText => "Input should be a valid number, unable to parse string as a number"
  | atLeast bound => "Input should be greater than or equal to " ++ Text.ofNat bound
  | atMost bound => "Input should be less than or equal to " ++ Text.ofNat bound
  | member choices => "Input should be " ++ choicesText choices
  | literal choices => "Input should be " ++ choicesText choices
  | path => "Input is not a valid path for <class 'pathlib.Path'>"
  | someEntry => "Dictionary should have at least 1 item after validation, not 0"
  | pathGiven source =>
    "Value error, test_cases.path is required for source '" ++ source ++ "'"
  | frozen => "Instance is frozen"

/-- A rule that a part of a value breaks, and the way to that part. -/
structure Problem where
  place : List Step
  rule : Rule
  deriving DecidableEq

/-- The outcome of a check. -/
inductive Checked (α : Type) where
  | valid (result : α)
  | invalid (problems : List Problem)

namespace Checked

variable {α β : Type}

/-- A check that breaks one rule where it stands. -/
def broken (rule : Rule) : Checked α := .invalid [⟨[], rule⟩]

/-- The outcome with its result replaced. -/
def map (f : α → β) : Checked α → Checked β
  | valid result => valid (f result)
  | invalid problems => invalid problems

/-- Two checks one after the other: the problems of both count. -/
def seq (f : Checked (α → β)) (x : Unit → Checked α) : Checked β :=
  match f, x () with
  | valid f, valid result => valid (f result)
  | valid _, invalid problems => invalid problems
  | invalid problems, valid _ => invalid problems
  | invalid problems, invalid more => invalid (problems ++ more)

instance : Applicative Checked where
  pure := valid
  map := map
  seq := seq

@[simp] theorem seq_invalid_invalid (ps qs : List Problem) :
    ((invalid ps : Checked (α → β)) <*> (invalid qs : Checked α)) = invalid (ps ++ qs) := rfl

@[simp] theorem seq_valid_valid (f : α → β) (a : α) :
    ((valid f : Checked (α → β)) <*> (valid a : Checked α)) = valid (f a) := rfl

/-- A check that needs the result of another one. -/
def andThen (x : Checked α) (f : α → Checked β) : Checked β :=
  match x with
  | valid result => f result
  | invalid problems => invalid problems

/-- The outcome for a part, as an outcome for the whole. -/
def within (step : Step) : Checked α → Checked α
  | valid result => valid result
  | invalid problems => invalid (problems.map fun p => { p with place := step :: p.place })

@[simp] theorem within_valid (step : Step) (a : α) : (valid a).within step = valid a := rfl

/-- The result of a check, if it found no problem. -/
def toOption : Checked α → Option α
  | valid result => some result
  | invalid _ => none

end Checked

/-- The problems of a record that could not be read or changed. -/
structure Report where
  record : String
  problems : List Problem
  deriving DecidableEq

/-- The first line of a report. -/
def Report.summary (report : Report) : Text :=
  let count := report.problems.length
  let problems : Text := if count = 1 then " validation error" else " validation errors"
  Text.ofNat count ++ problems ++ " for " ++ Text.ofString report.record

/-- The text of a step. -/
def Step.text : Step → Text
  | key name => name
  | index i => Text.ofInt i

/-- The way to the part, with points between its steps. -/
def Problem.pathText (problem : Problem) : Text :=
  Text.join "." (problem.place.map Step.text)

/-- The lines about a problem: the way to the part, and the rule that it breaks. -/
def Problem.lines (problem : Problem) : List Text :=
  [problem.pathText,
    "  " ++ problem.rule.message ++ " [type=" ++ Text.ofString problem.rule.code ++ "]"]

/-- The whole text of a report. -/
def Report.message (report : Report) : Text :=
  Text.join "\n" (report.summary :: report.problems.flatMap Problem.lines)

/-- The outcome of reading a record, as a result or a report. -/
def Checked.report {α : Type} (record : String) : Checked α → Except Report α
  | valid result => .ok result
  | invalid problems => .error ⟨record, problems⟩

end TypeBench
