import TypeBench.Named
import TypeBench.Number.Quantity
import TypeBench.Path
import TypeBench.Text.Numeral
import TypeBench.Validation.Basic

/-!
# Rules for the fields of a record

Each rule reads one kind of field from a value. The rules are lenient where a value has an evident
meaning: a byte sequence in UTF-8 is a text, a boolean is a number, a whole number may be written
with a fraction of zeros, and a number may be written as a text.

## Main definitions

* `Field.text`, `Field.nonEmptyText`: texts. Only the second refuses surrogates.
* `Field.integer`, `Field.integerAtLeast`, `Field.number`: numbers.
* `Field.member`, `Field.literal`: one of several names.
* `Field.list`, `Field.mapping`, `Field.optional`: parts.
* `Field.record`, `Field.required`, `Field.withDefault`: the fields of a record.
-/

namespace TypeBench.Field

/-! ### Texts -/

/-- A text. -/
def text : Value → Checked Text
  | .text t => .valid t
  | .bytes bytes =>
    match Utf8.decode? bytes with
    | some t => .valid t
    | none => .broken .unicode
  | _ => .broken .text

/-- A text of at least one character, all of them proper. -/
def nonEmptyText (value : Value) : Checked Text :=
  (text value).andThen fun t =>
    if t.hasSurrogate then .broken .unicode
    else if t = [] then .broken .nonEmpty
    else .valid t

/-- One of several names, as a text; anything else that can be read as a text is compared too. -/
def member {α : Type} (choices : List (String × α)) (value : Value) : Checked α :=
  let rule := Rule.member (choices.map (·.1))
  match text value with
  | .valid t =>
    if t.hasSurrogate then .broken .unicode
    else match choices.find? fun choice => Text.ofString choice.1 = t with
      | some choice => .valid choice.2
      | none => .broken rule
  | .invalid _ => .broken rule

/-- One of several names, as a text and nothing else. -/
def literal {α : Type} (choices : List (String × α)) (value : Value) : Checked α :=
  let rule := Rule.literal (choices.map (·.1))
  match value with
  | .text t =>
    if t.hasSurrogate then .broken .unicode
    else match choices.find? fun choice => Text.ofString choice.1 = t with
      | some choice => .valid choice.2
      | none => .broken rule
  | _ => .broken rule

/-- A path, given as a text. -/
def path : Value → Checked Path
  | .text t => .valid (Path.ofText t)
  | _ => .broken .path

/-! ### Numbers -/

/-- A text or byte sequence that stands for a number, checked as a text by `check`; `unreadable` is
the rule that bytes which are no text break. -/
def ofText {α : Type} (check : Text → Checked α) (unreadable : Rule) : Value → Checked α
  | .text t => if t.hasSurrogate then .broken .unicode else check t
  | .bytes bytes => ((Utf8.decode? bytes).map check).getD (.broken unreadable)
  | _ => .broken unreadable

/-- An integer given as a text. -/
def integerText (t : Text) : Checked Int :=
  match t.lenientInteger with
  | .number i => .valid i
  | .tooLong => .broken .integerSize
  | .malformed => .broken .integerText

/-- A number given as a text. -/
def numberText (t : Text) : Checked Binary64 :=
  (t.lenientNumber?.map .valid).getD (.broken .numberText)

/-- Numbers from `-2 ^ 63` to `2 ^ 63` can be given with a point. -/
def integerLimit : Nat := Nat.pow 2 63

/-- Whether an integer is a word of 64 bits with a sign. -/
def isWord (i : Int) : Bool :=
  -(integerLimit : Int) ≤ i && i < integerLimit

/-- The integer that a binary64 number is. -/
def integerOfNumber (x : Binary64) : Checked Int :=
  if !x.isFinite then .broken .finite
  else match x.toInt? with
    | none => .broken .integral
    | some i => if i.natAbs < integerLimit then .valid i else .broken .integerSize

/-- An integer. -/
def integer : Value → Checked Int
  | .int i => .valid i
  | .bool b => .valid (if b then 1 else 0)
  | .float x => integerOfNumber x
  | .text t => ofText integerText .integerText (.text t)
  | .bytes bytes => ofText integerText .integerText (.bytes bytes)
  | _ => .broken .integer

/-- A natural number not below a bound. -/
def integerAtLeast (bound : Nat) (value : Value) : Checked Nat :=
  (integer value).andThen fun i =>
    if (bound : Int) ≤ i then .valid i.toNat else .broken (.atLeast bound)

/-- A binary64 number. An integer beyond the greatest one is none. -/
def number : Value → Checked Binary64
  | .float x => .valid x
  | .int i =>
    let x := Binary64.ofInt i
    if x.isFinite then .valid x else .broken .number
  | .bool b => .valid (if b then 1 else 0)
  | .text t => ofText numberText .numberText (.text t)
  | .bytes bytes => ofText numberText .numberText (.bytes bytes)
  | _ => .broken .number

/-- A quantity in the closed unit interval; the upper bound is looked at first. -/
def inUnitInterval {R : Type} [Quantity R] (x : R) : Checked R :=
  if !Quantity.le x ((1 : Nat) : R) then .broken (.atMost 1)
  else if !Quantity.le Quantity.zero x then .broken (.atLeast 0)
  else .valid x

/-- A quantity not below zero. -/
def notNegative {R : Type} [Quantity R] (x : R) : Checked R :=
  if Quantity.le Quantity.zero x then .valid x else .broken (.atLeast 0)

/-- A number in the closed unit interval. -/
def unitInterval (value : Value) : Checked Binary64 :=
  (number value).andThen inUnitInterval

/-- A number not below zero. -/
def nonNegative (value : Value) : Checked Binary64 :=
  (number value).andThen notNegative

/-! ### Parts -/

/-- The null value, or a part that follows a rule. -/
def optional {α : Type} (rule : Value → Checked α) : Value → Checked (Option α)
  | .null => .valid none
  | value => some <$> rule value

/-- The items of a sequence from an index on. -/
def items {α : Type} (rule : Value → Checked α) (index : Nat) : List Value → Checked (List α)
  | [] => .valid []
  | item :: rest =>
    (· :: ·) <$> (rule item).within (.index index) <*> items rule (index + 1) rest

/-- A list or tuple whose items follow a rule. -/
def list {α : Type} (rule : Value → Checked α) : Value → Checked (List α)
  | .list values => items rule 0 values
  | .tuple values => items rule 0 values
  | _ => .broken .sequence

/-- The step to the entry under a key. A surrogate in it is shown as the three bytes it would
take. -/
def keyStep : Value → Step
  | .text t => .key (t.flatMap fun c => if c.isSurrogate then Text.fill 3 '\uFFFD' else [c])
  | .bool b => .index (if b then 1 else 0)
  | .int i => if isWord i then .index i else .key (Text.ofInt i)
  | key => .key key.written

/-- The entries of a mapping after those read so far: keys are texts and values follow a rule. -/
def entries {α : Type} (rule : Value → Checked α) :
    List (Value × Value) → Checked (List (Text × α))
  | [] => .valid []
  | (key, value) :: rest =>
    let step := keyStep key
    (fun k v more => (k, v) :: more) <$> ((text key).within (.key "[key]")).within step
      <*> (rule value).within step <*> entries rule rest

/-- A mapping from texts to parts that follow a rule; a repeated key keeps its first place and its
last value. -/
def mapping {α : Type} (rule : Value → Checked α) : Value → Checked (Named α)
  | .map all => (entries rule all).map Named.ofList
  | _ => .broken .mapping

/-- A mapping with at least one entry. -/
def nonEmptyMapping {α : Type} (rule : Value → Checked α) (value : Value) :
    Checked (Named α) :=
  (mapping rule value).andThen fun found =>
    if found = [] then .broken .someEntry else .valid found

/-- Any value at all. -/
def any (value : Value) : Checked Value := .valid value

/-! ### Records -/

/-- A record is read from a mapping. -/
def record {α : Type} (name : String) (fields : List (Value × Value) → Checked α) :
    Value → Checked α
  | .map all => fields all
  | _ => .broken (.record name)

/-- A field that must be present. -/
def required {α : Type} (name : String) (rule : Value → Checked α) (all : List (Value × Value)) :
    Checked α :=
  let step := Step.key name
  match Value.get? name all with
  | some value => (rule value).within step
  | none => (Checked.broken .missing).within step

/-- A field that has a default. -/
def withDefault {α : Type} (name : String) (default : α) (rule : Value → Checked α)
    (all : List (Value × Value)) : Checked α :=
  match Value.get? name all with
  | some value => (rule value).within (.key name)
  | none => .valid default

end TypeBench.Field
