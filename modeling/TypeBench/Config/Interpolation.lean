import TypeBench.Named
import TypeBench.Value.Basic

/-!
# References to variables

A text may refer to environment variables: `$` and a name in braces, and after the name perhaps
`:-` and a default for a variable that is not set. A text is cut into literal stretches and
references in one pass from the left; what a variable holds is not looked at again. Values may be
nested to any depth.

## Main definitions

* `Reference`, `Segment`: a reference, and a piece of a text.
* `Reference.read?`: the reference at the start of a text.
* `Text.segments`: the pieces of a text.
* `Value.interpolate`: a value with all its references replaced.
* `Value.missingVariables`: the variables without value and default.

## Main results

* `Reference.length_read?_lt`: a reference takes up some of the text.
* `Text.interpolate_of_plain`, `Value.interpolate_of_plain`: what is written without `$` stays as it
  is.
-/

namespace TypeBench

/-- The variables that are set, with their values. -/
abbrev Environment := Named Text

/-- A reference to a variable, perhaps with a default. -/
structure Reference where
  name : Text
  default : Option Text
  deriving DecidableEq

/-- A piece of a text: code points that stand for themselves, or a reference. -/
inductive Segment where
  | literal (c : CodePoint)
  | reference (r : Reference)
  deriving DecidableEq

namespace Reference

/-- Whether a code point may begin a name. -/
def startsName (c : CodePoint) : Bool := c.isLetter || c = '_'

/-- Whether a code point may go on in a name. -/
def continuesName (c : CodePoint) : Bool := startsName c || c.isDigit

/-- The opening of a reference. -/
def opening : Text := "$\x7b"

/-- The mark before a default. -/
def defaultMark : Text := ":-"

/-- The closing of a reference. -/
def closing : CodePoint := '\x7d'

/-- The name at the start of a text, and the rest. -/
def name? : Text → Option (Text × Text)
  | [] => none
  | c :: rest =>
    if startsName c then some (c :: rest.takeWhile continuesName, rest.dropWhile continuesName)
    else none

/-- The text up to the closing of a reference, and the text after it. -/
def upToClosing? (t : Text) : Option (Text × Text) :=
  match t.dropWhile fun c => c ≠ closing with
  | [] => none
  | _ :: rest => some (t.takeWhile fun c => c ≠ closing, rest)

/-- The default after a name, if one is written, and the text after the reference. -/
def default? (t : Text) : Option (Option Text × Text) :=
  match t with
  | [] => none
  | c :: rest =>
    if c = closing then some (none, rest)
    else (t.after? defaultMark).bind fun rest =>
      (upToClosing? rest).map fun (default, rest) => (some default, rest)

/-- The reference at the start of a text, and the text after it. -/
def read? (t : Text) : Option (Reference × Text) :=
  (t.after? opening).bind fun rest =>
    (name? rest).bind fun (name, rest) =>
      (default? rest).map fun (default, rest) => (⟨name, default⟩, rest)

theorem length_name?_lt {t name rest : Text} (h : name? t = some (name, rest)) :
    rest.length < t.length := by
  cases t with
  | nil => cases h
  | cons c t =>
    rw [name?] at h
    split at h
    · cases h
      have := (List.dropWhile_sublist continuesName (l := t)).length_le
      simp only [List.length_cons]
      omega
    · cases h

theorem length_default?_lt {t rest : Text} {default : Option Text}
    (h : default? t = some (default, rest)) : rest.length < t.length := by
  cases t with
  | nil => cases h
  | cons c t =>
    rw [default?] at h
    split at h
    · cases h
      simp
    · obtain ⟨more, hmore, h⟩ := Option.bind_eq_some_iff.1 h
      obtain ⟨⟨found, after⟩, hfound, h⟩ := Option.map_eq_some_iff.1 h
      cases h
      have hlen := Text.length_after? hmore
      unfold upToClosing? at hfound
      split at hfound
      · cases hfound
      · rename_i d tail hdrop
        cases hfound
        have hle := (List.dropWhile_sublist (fun c => decide (c ≠ closing)) (l := more)).length_le
        rw [hdrop, List.length_cons] at hle
        omega

/-- A reference takes up some of the text. -/
theorem length_read?_lt {t rest : Text} {r : Reference} (h : read? t = some (r, rest)) :
    rest.length < t.length := by
  obtain ⟨a, ha, h⟩ := Option.bind_eq_some_iff.1 h
  obtain ⟨⟨name, b⟩, hb, h⟩ := Option.bind_eq_some_iff.1 h
  obtain ⟨⟨default, c⟩, hc, h⟩ := Option.map_eq_some_iff.1 h
  cases h
  have h₁ := Text.length_after? ha
  have h₂ := length_name?_lt hb
  have h₃ := length_default?_lt hc
  omega

/-- The value of a reference: that of its variable, or else the default. -/
def value? (env : Environment) (r : Reference) : Option Text :=
  match env.lookup r.name with
  | some value => some value
  | none => r.default

/-- Whether a reference has no value. -/
def isMissing (env : Environment) (r : Reference) : Bool := (r.value? env).isNone

end Reference

/-- The pieces of a text, from the left. -/
def Text.segments (t : Text) : List Segment :=
  match t with
  | [] => []
  | c :: rest =>
    match h : Reference.read? (c :: rest) with
    | some (r, after) =>
      have := Reference.length_read?_lt h
      .reference r :: Text.segments after
    | none => .literal c :: Text.segments rest
termination_by t.length
decreasing_by
  · exact this
  · exact Nat.lt_succ_self rest.length

/-- The references of a text. -/
def Text.references (t : Text) : List Reference :=
  t.segments.filterMap fun
    | .literal _ => none
    | .reference r => some r

/-- The text of a piece; a reference without a value is told by its name. -/
def Segment.resolve (env : Environment) : Segment → Except Text Text
  | literal c => .ok [c]
  | reference r =>
    match r.value? env with
    | some value => .ok value
    | none => .error r.name

/-- A text with its references replaced, or the name of the first variable without a value. -/
def Text.interpolate (env : Environment) (t : Text) : Except Text Text :=
  (t.segments.mapM (Segment.resolve env)).map List.flatten

namespace Value

mutual

/-- The texts of a value in order, those of its keys apart. -/
def texts : Value → List Text
  | text t => [t]
  | list items => itemTexts items
  | map entries => entryTexts entries
  | _ => []

/-- The texts of items. -/
def itemTexts : List Value → List Text
  | [] => []
  | item :: rest => texts item ++ itemTexts rest

/-- The texts of the values of entries. -/
def entryTexts : List (Value × Value) → List Text
  | [] => []
  | (_, value) :: rest => texts value ++ entryTexts rest

end

/-- The references of a value. -/
def references (v : Value) : List Reference := v.texts.flatMap Text.references

/-- The variables without value and default, each once, in the order of their references. -/
def missingVariables (env : Environment) (v : Value) : List Text :=
  ((v.references.filter (Reference.isMissing env)).map (·.name)).eraseDups

mutual

/-- A value with the references in its texts replaced; keys and all else stay as they are. -/
def interpolate (env : Environment) : Value → Except Text Value
  | text t => return text (← t.interpolate env)
  | list items => return list (← interpolateItems env items)
  | map entries => return map (← interpolateEntries env entries)
  | null => return null
  | bool b => return bool b
  | int i => return int i
  | float x => return float x
  | bytes b => return bytes b
  | date d => return date d
  | moment t => return moment t
  | tuple items => return tuple items

/-- Items with their references replaced. -/
def interpolateItems (env : Environment) : List Value → Except Text (List Value)
  | [] => return []
  | item :: rest => return (← interpolate env item) :: (← interpolateItems env rest)

/-- Entries with the references in their values replaced. -/
def interpolateEntries (env : Environment) :
    List (Value × Value) → Except Text (List (Value × Value))
  | [] => return []
  | (key, value) :: rest =>
    return (key, ← interpolate env value) :: (← interpolateEntries env rest)

end

end Value

/-! ### Values without references -/

theorem Reference.read?_of_ne {c : CodePoint} (h : c ≠ '$') (rest : Text) :
    Reference.read? (c :: rest) = none := by
  have hafter : Text.after? (c :: rest) opening = none := by
    have hne : (CodePoint.ofChar '$' == c) = false := beq_eq_false_iff_ne.2 (Ne.symm h)
    have hopening : opening = ([CodePoint.ofChar '$', CodePoint.ofChar '\x7b'] : List CodePoint) :=
      rfl
    rw [Text.after?, hopening, List.isPrefixOf, hne, Bool.false_and, if_neg Bool.false_ne_true]
  rw [read?, hafter]
  rfl

/-- A text without `$` has no references. -/
theorem Text.segments_of_plain {t : Text} (h : ('$' : CodePoint) ∉ t) :
    t.segments = t.map .literal := by
  induction t with
  | nil => rw [segments, List.map_nil]
  | cons c rest ih =>
    obtain ⟨hc, hrest⟩ := not_or.1 ((not_congr List.mem_cons).1 h)
    rw [segments]
    split
    · rename_i hread
      rw [Reference.read?_of_ne (Ne.symm hc)] at hread
      cases hread
    · rw [ih hrest, List.map_cons]

theorem Text.references_of_plain {t : Text} (h : ('$' : CodePoint) ∉ t) : t.references = [] := by
  rw [references, segments_of_plain h, List.filterMap_map]
  exact List.filterMap_eq_nil_iff.2 fun _ _ => rfl

/-- A text without `$` stays as it is. -/
theorem Text.interpolate_of_plain (env : Environment) {t : Text} (h : ('$' : CodePoint) ∉ t) :
    t.interpolate env = .ok t := by
  have hresolve : (t.map Segment.literal).mapM (Segment.resolve env) = .ok (t.map ([·])) := by
    clear h
    induction t with
    | nil => rfl
    | cons c rest ih =>
      rw [List.map_cons, List.mapM_cons, ih]
      rfl
  rw [interpolate, segments_of_plain h, hresolve, Except.map, ← List.flatMap_def,
    List.flatMap_singleton']

namespace Value

/-- A value without `$` in its texts has no missing variables. -/
theorem missingVariables_of_plain (env : Environment) {v : Value}
    (h : ∀ t ∈ v.texts, ('$' : CodePoint) ∉ t) : v.missingVariables env = [] := by
  have hreferences : v.references = [] :=
    List.flatMap_eq_nil_iff.2 fun t ht => Text.references_of_plain (h t ht)
  rw [missingVariables, hreferences]
  rfl

mutual

/-- A value without `$` in its texts stays as it is. -/
theorem interpolate_of_plain (env : Environment) :
    ∀ v : Value, (∀ t ∈ v.texts, ('$' : CodePoint) ∉ t) → v.interpolate env = .ok v
  | .text t, h => by
    rw [interpolate, Text.interpolate_of_plain env (h t List.mem_cons_self)]
    rfl
  | .list items, h => by
    rw [interpolate, interpolateItems_of_plain env items h]
    rfl
  | .map entries, h => by
    rw [interpolate, interpolateEntries_of_plain env entries h]
    rfl
  | .null, _ | .bool _, _ | .int _, _ | .float _, _ | .bytes _, _ | .date _, _ | .moment _, _
  | .tuple _, _ => by
    rw [interpolate]
    rfl

theorem interpolateItems_of_plain (env : Environment) :
    ∀ items : List Value, (∀ t ∈ itemTexts items, ('$' : CodePoint) ∉ t) →
      interpolateItems env items = .ok items
  | [], _ => by
    rw [interpolateItems]
    rfl
  | item :: rest, h => by
    obtain ⟨hitem, hrest⟩ := List.forall_mem_append.1 h
    rw [interpolateItems, interpolate_of_plain env item hitem,
      interpolateItems_of_plain env rest hrest]
    rfl

theorem interpolateEntries_of_plain (env : Environment) :
    ∀ entries : List (Value × Value), (∀ t ∈ entryTexts entries, ('$' : CodePoint) ∉ t) →
      interpolateEntries env entries = .ok entries
  | [], _ => by
    rw [interpolateEntries]
    rfl
  | (key, value) :: rest, h => by
    obtain ⟨hvalue, hrest⟩ := List.forall_mem_append.1 h
    rw [interpolateEntries, interpolate_of_plain env value hvalue,
      interpolateEntries_of_plain env rest hrest]
    rfl

end

end Value

end TypeBench
