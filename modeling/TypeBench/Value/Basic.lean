import TypeBench.Calendar.Basic
import TypeBench.Number.Binary64
import TypeBench.Text.Utf8

/-!
# Values of no fixed type

Config data, options and entries of a case file are read before anything is known of their shape.
Such a value is a scalar, a sequence or a mapping whose entries keep their order.

## Main definitions

* `Value`: the values.
* `Value.get?`: the entry of a mapping under a text key.
* `Value.find?`, `Value.insert`: the part under a key, and a part put under one.

## Main results

* `Value.get?_nil`, `Value.get?_cons`: look-up by cases on the entries.
* `Value.find?_insert_text`: looking up a text finds the part that was put under it last.
-/

namespace TypeBench

/-- A value of no fixed type. -/
inductive Value where
  | null
  | bool (b : Bool)
  | int (i : Int)
  | float (x : Binary64)
  | text (t : Text)
  | bytes (b : Bytes)
  | date (d : Date)
  | moment (t : Timestamp)
  | list (items : List Value)
  | tuple (items : List Value)
  | map (entries : List (Value × Value))

namespace Value

instance : Inhabited Value := ⟨null⟩

instance : Coe Text Value := ⟨text⟩

instance : Coe String Value := ⟨fun s => text s⟩

/-- The entries of a mapping from text keys. -/
def fieldEntries (fields : List (Text × Value)) : List (Value × Value) :=
  fields.map fun (key, value) => (.text key, value)

/-- A mapping from text keys. -/
def ofFields (fields : List (Text × Value)) : Value := .map (fieldEntries fields)

/-- Whether a value is the null value. -/
def isNull : Value → Bool
  | null => true
  | _ => false

/-- Whether a value counts as true: what is null, zero or empty does not. -/
def countsAsTrue : Value → Bool
  | null => false
  | bool b => b
  | int i => i != 0
  | float x => !x.isZero
  | text t => !t.isEmpty
  | bytes b => !b.isEmpty
  | date _ | moment _ => true
  | list items | tuple items => !items.isEmpty
  | map entries => !entries.isEmpty

/-- The value of the first entry under a text key. -/
def get? (key : Text) : List (Value × Value) → Option Value
  | [] => none
  | (.text t, value) :: rest => if t = key then some value else get? key rest
  | _ :: rest => get? key rest

@[simp] theorem get?_nil (key : Text) : get? key [] = none := rfl

@[simp] theorem get?_cons_text (key t : Text) (value : Value) (rest : List (Value × Value)) :
    get? key ((.text t, value) :: rest) = if t = key then some value else get? key rest := rfl

/-- The number that a boolean, integer or finite number is as a key, in least units. -/
def keyUnits? : Value → Option Int
  | bool b => some (if b then Binary64.one else 0)
  | int i => some (i * Binary64.one)
  | float x => if x.isFinite then some x.signedUnits else none
  | _ => none

mutual

/-- Whether two values are the same key: numbers of any kind by their value, moments by the instant,
all else by kind and content. -/
def sameKey : Value → Value → Bool
  | null, null => true
  | text a, text b => a == b
  | bytes a, bytes b => a == b
  | date a, date b => a == b
  | moment a, moment b => a.isSameInstant b
  | tuple a, tuple b => sameKeys a b
  | float (.infinity a), float (.infinity b) => a == b
  | a, b =>
    match keyUnits? a, keyUnits? b with
    | some m, some n => m == n
    | _, _ => false

/-- Whether two lists are the same keys in the same order. -/
def sameKeys : List Value → List Value → Bool
  | [], [] => true
  | a :: as, b :: bs => sameKey a b && sameKeys as bs
  | _, _ => false

end

/-- The first part under a key. -/
def find? {α : Type} (key : Value) : List (Value × α) → Option α
  | [] => none
  | (k, part) :: rest => if sameKey k key then some part else find? key rest

/-- Parts under keys with one more at the end, or in the place of the one under its key. -/
def insert {α : Type} (key : Value) (part : α) : List (Value × α) → List (Value × α)
  | [] => [(key, part)]
  | (k, found) :: rest =>
    if sameKey k key then (k, part) :: rest else (k, found) :: insert key part rest

theorem sameKey_text (k : Value) (t : Text) : sameKey k (.text t) = true ↔ k = .text t := by
  cases k with
  | text u => simp [sameKey]
  | float x => cases x <;> exact iff_of_false Bool.false_ne_true nofun
  | _ => exact iff_of_false Bool.false_ne_true nofun

theorem find?_insert_text {α : Type} (s t : Text) (part : α) (parts : List (Value × α)) :
    find? (.text s) (insert (.text t) part parts) =
      if t = s then some part else find? (.text s) parts := by
  induction parts with
  | nil =>
    by_cases h : t = s <;> simp [insert, find?, sameKey, h]
  | cons entry rest ih =>
    obtain ⟨k, found⟩ := entry
    by_cases ht : k = .text t
    · subst ht
      by_cases h : t = s <;> simp [insert, find?, sameKey_text, h]
    · by_cases hs : k = .text s
      · subst hs
        have hne : ¬ s = t := fun e => ht (by rw [e])
        have hne' : ¬ t = s := fun e => hne e.symm
        simp [insert, find?, sameKey_text, hne, hne']
      · simp [insert, find?, sameKey_text, ht, hs, ih]

/-- The mapping that a list of entries writes: a repeated key keeps its first place and its last
value. -/
def ofEntries (entries : List (Value × Value)) : Value :=
  .map (entries.foldl (fun all (key, value) => insert key value all) [])

end Value

end TypeBench
