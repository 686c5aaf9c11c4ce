import TypeBench.Validation.Fields

/-!
# Accepted values

A check that found no problem has looked at every part, and each of its parts was accepted by the
rule for it. So what is known of the results of a rule is known of the parts of every record that
was read.

## Main results

* `Checked.exists_of_map`, `Checked.exists_of_seq`: the parts of a check.
* `Field.nonEmptyText_eq_valid`: what is known of a text.
* `Field.of_inUnitInterval`, `Field.of_notNegative`: what is known of a quantity.
* `Field.exists_of_required`, `Field.exists_of_withDefault`: the fields of a record.
* `Field.forall_mem_of_list`: the items of a list.
* `Field.nodup_names_of_mapping`: the names of a mapping.
-/

namespace TypeBench

namespace Checked

variable {α β : Type}

theorem exists_of_map {f : α → β} {x : Checked α} {b : β} (h : f <$> x = .valid b) :
    ∃ a, x = .valid a ∧ f a = b := by
  cases x with
  | valid a => exact ⟨a, rfl, Checked.valid.inj h⟩
  | invalid => cases h

theorem exists_of_seq {f : Checked (α → β)} {x : Checked α} {b : β} (h : f <*> x = .valid b) :
    ∃ g a, f = .valid g ∧ x = .valid a ∧ g a = b := by
  cases f with
  | valid g =>
    cases x with
    | valid a => exact ⟨g, a, rfl, rfl, Checked.valid.inj h⟩
    | invalid => cases h
  | invalid => cases x <;> cases h

theorem exists_of_andThen {x : Checked α} {f : α → Checked β} {b : β}
    (h : x.andThen f = .valid b) : ∃ a, x = .valid a ∧ f a = .valid b := by
  cases x with
  | valid a => exact ⟨a, rfl, h⟩
  | invalid => cases h

theorem valid_of_within {step : Step} {x : Checked α} {a : α} (h : x.within step = .valid a) :
    x = .valid a := by
  cases x with
  | valid => exact h
  | invalid => cases h

theorem valid_of_report {record : String} {x : Checked α} {a : α}
    (h : x.report record = .ok a) : x = .valid a := by
  cases x with
  | valid => exact congrArg _ (Except.ok.inj h)
  | invalid => cases h

end Checked

/-- The names that a list of entries writes are different. -/
theorem Named.nodup_names_ofList {α : Type} (entries : List (Text × α)) :
    (names (ofList entries)).Nodup := by
  rw [ofList]
  suffices hfold : ∀ parts : Named α, (names parts).Nodup →
      (names (entries.foldl (fun parts entry => put entry.1 entry.2 parts) parts)).Nodup from
    hfold [] .nil
  intro parts hparts
  induction entries generalizing parts with
  | nil => exact hparts
  | cons entry rest ih => exact ih _ (nodup_names_put entry.1 entry.2 hparts)

namespace Field

variable {α : Type} {rule : Value → Checked α}

/-- A text that is accepted is not empty and has no lone surrogates. -/
theorem nonEmptyText_eq_valid {value : Value} {t : Text} (h : nonEmptyText value = .valid t) :
    t ≠ [] ∧ t.hasSurrogate = false := by
  obtain ⟨t', -, h⟩ := Checked.exists_of_andThen h
  split at h
  · cases h
  · rename_i hsurrogate
    split at h
    · cases h
    · obtain rfl := Checked.valid.inj h
      exact ⟨‹_›, eq_false_of_ne_true hsurrogate⟩

/-- The same is known of the text that was looked at. -/
theorem of_nonEmptyText_text {t t' : Text} (h : nonEmptyText (.text t) = .valid t') :
    t ≠ [] ∧ t.hasSurrogate = false := by
  rw [nonEmptyText, text, Checked.andThen] at h
  split at h
  · cases h
  · rename_i hsurrogate
    split at h
    · cases h
    · exact ⟨‹_›, eq_false_of_ne_true hsurrogate⟩

section Quantities

variable {R : Type} [Quantity R] {x y : R}

/-- A quantity that is accepted is between zero and one. -/
theorem of_inUnitInterval (h : inUnitInterval x = .valid y) :
    Quantity.le x ((1 : Nat) : R) = true ∧ Quantity.le Quantity.zero x = true := by
  rw [inUnitInterval] at h
  cases hone : Quantity.le x ((1 : Nat) : R) with
  | false =>
    rw [hone] at h
    cases h
  | true =>
    cases hzero : Quantity.le Quantity.zero x with
    | false =>
      rw [hone, hzero] at h
      cases h
    | true => exact ⟨rfl, rfl⟩

/-- A quantity that is accepted is not below zero. -/
theorem of_notNegative (h : notNegative x = .valid y) : Quantity.le Quantity.zero x = true := by
  rw [notNegative] at h
  split at h
  · assumption
  · cases h

end Quantities

/-! ### Records -/

theorem exists_of_record {name : String} {fields : List (Value × Value) → Checked α} {value : Value}
    {a : α} (h : record name fields value = .valid a) : ∃ all, fields all = .valid a := by
  cases value with
  | map all => exact ⟨all, h⟩
  | _ => cases h

theorem exists_of_required {name : String} {all : List (Value × Value)} {a : α}
    (h : required name rule all = .valid a) : ∃ value, rule value = .valid a := by
  rw [required] at h
  split at h
  · exact ⟨_, Checked.valid_of_within h⟩
  · cases h

theorem exists_of_withDefault {name : String} {default a : α} {all : List (Value × Value)}
    (h : withDefault name default rule all = .valid a) :
    a = default ∨ ∃ value, rule value = .valid a := by
  rw [withDefault] at h
  split at h
  · exact .inr ⟨_, Checked.valid_of_within h⟩
  · exact .inl (Checked.valid.inj h).symm

/-! ### Lists and mappings -/

theorem forall_mem_of_items {P : α → Prop} (hrule : ∀ value a, rule value = .valid a → P a)
    {index : Nat} {values : List Value} {found : List α}
    (h : items rule index values = .valid found) : ∀ a ∈ found, P a := by
  induction values generalizing index found with
  | nil =>
    obtain rfl := Checked.valid.inj h
    exact fun a ha => absurd ha List.not_mem_nil
  | cons value rest ih =>
    obtain ⟨_, more, hfirst, hrest, rfl⟩ := Checked.exists_of_seq h
    obtain ⟨a, hvalue, rfl⟩ := Checked.exists_of_map hfirst
    exact List.forall_mem_cons.2 ⟨hrule value a (Checked.valid_of_within hvalue), ih hrest⟩

/-- What a rule gives is known of the items of a list. -/
theorem forall_mem_of_list {P : α → Prop} (hrule : ∀ value a, rule value = .valid a → P a)
    {value : Value} {found : List α} (h : list rule value = .valid found) : ∀ a ∈ found, P a := by
  cases value with
  | list values => exact forall_mem_of_items hrule h
  | tuple values => exact forall_mem_of_items hrule h
  | _ => cases h

/-- The names of a mapping that is accepted are different. -/
theorem nodup_names_of_mapping {value : Value} {found : Named α}
    (h : nonEmptyMapping rule value = .valid found) : (Named.names found).Nodup := by
  obtain ⟨found', hmapping, h⟩ := Checked.exists_of_andThen h
  obtain rfl : found' = found := by
    split at h
    · cases h
    · exact Checked.valid.inj h
  cases value with
  | map all =>
    obtain ⟨entries, -, rfl⟩ := Checked.exists_of_map hmapping
    exact Named.nodup_names_ofList entries
  | _ => cases hmapping

end Field

end TypeBench
