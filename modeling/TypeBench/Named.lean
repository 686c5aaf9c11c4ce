import TypeBench.Text.Basic

/-!
# Parts under names

Approaches, results and members are kept under names, in the order in which the names first came.
A later part of a name takes the place of the earlier one.

## Main definitions

* `Named`: parts under names.
* `Named.put`: a part added, or put in the place of the one of its name.
* `Named.ofList`: the parts that a list of entries writes.

## Main results

* `Named.names_put`: a name that is there already keeps its place.
* `Named.nodup_names_put`: names stay different.
* `Named.mem_names_iff`: a name has a part if it is there.
* `Named.lookup_put`: looking up finds the part that was put last.
-/

namespace TypeBench

/-- Parts under names, in order. -/
abbrev Named (α : Type) := List (Text × α)

namespace Named

variable {α : Type}

/-- The names, in order. -/
def names (parts : Named α) : List Text := parts.map (·.1)

/-- The parts with one more at the end, or in the place of the one of its name. -/
def put (name : Text) (part : α) : Named α → Named α
  | [] => [(name, part)]
  | (other, found) :: rest =>
    if other = name then (other, part) :: rest else (other, found) :: put name part rest

/-- The parts that a list of entries writes: a repeated name keeps its first place and its last
part. -/
def ofList (entries : List (Text × α)) : Named α :=
  entries.foldl (fun parts (name, part) => put name part parts) []

@[simp] theorem names_nil : names ([] : Named α) = [] := rfl

@[simp] theorem names_cons (entry : Text × α) (rest : Named α) :
    names (entry :: rest) = entry.1 :: names rest := rfl

/-- A name that is there already keeps its place, and a new one comes last. -/
theorem names_put (name : Text) (part : α) (parts : Named α) :
    names (put name part parts) =
      if (names parts).contains name then names parts else names parts ++ [name] := by
  induction parts with
  | nil => rfl
  | cons entry rest ih =>
    obtain ⟨other, found⟩ := entry
    rw [put]
    by_cases h : other = name
    · simp [h]
    · have h' : ¬ name = other := fun e => h e.symm
      rw [if_neg h, names_cons, ih]
      by_cases hmem : name ∈ names rest <;> simp [h', hmem]

theorem lookup_cons (name other : Text) (part : α) (rest : Named α) :
    List.lookup other ((name, part) :: rest) =
      if other = name then some part else rest.lookup other := by
  by_cases h : other = name
  · simp [h]
  · simp [List.lookup_cons, h, beq_eq_false_iff_ne.2 h]

/-- Names stay different. -/
theorem nodup_names_put (name : Text) (part : α) {parts : Named α} (h : (names parts).Nodup) :
    (names (put name part parts)).Nodup := by
  rw [names_put]
  split
  · exact h
  · next hnew =>
    have hnew' : name ∉ names parts := fun hmem => hnew (List.contains_iff_mem.2 hmem)
    refine List.nodup_append.2 ⟨h, List.pairwise_singleton _ _, fun a ha b hb => ?_⟩
    obtain rfl := List.mem_singleton.1 hb
    exact ne_of_mem_of_not_mem ha hnew'

/-- A name has a part if it is there. -/
theorem mem_names_iff (name : Text) (parts : Named α) :
    name ∈ names parts ↔ parts.lookup name ≠ none := by
  induction parts with
  | nil => exact iff_of_false List.not_mem_nil fun h => h rfl
  | cons entry rest ih =>
    obtain ⟨other, part⟩ := entry
    rw [names_cons, List.mem_cons, ih, lookup_cons]
    by_cases h : name = other
    · simp [h]
    · simp [h]

/-- Looking up finds the part that was put last. -/
theorem lookup_put (name other : Text) (part : α) (parts : Named α) :
    (put name part parts).lookup other =
      if other = name then some part else parts.lookup other := by
  induction parts with
  | nil => rw [put, lookup_cons]
  | cons entry rest ih =>
    obtain ⟨key, found⟩ := entry
    rw [put, lookup_cons]
    split
    · rename_i h
      subst h
      rw [lookup_cons]
      split <;> rfl
    · rename_i h
      rw [lookup_cons, ih]
      split
      · rename_i h'
        subst h'
        rw [if_neg h]
      · rfl

end Named

end TypeBench
