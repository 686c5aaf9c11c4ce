/-!
# Items in groups

Items are grouped by a key. The groups stand in the order of their first items, and the items of a
group in the order in which they came.

## Main definitions

* `Groups`: items in groups.
* `Groups.add`: one more item at the end of a group.
* `Groups.items`: the items of a group.

## Main results

* `Groups.items_add`: one more item changes its own group alone.
* `Groups.items_foldl_add`: a group gets the items of its key, in the order in which they come.
-/

namespace TypeBench

/-- Items in groups, each group under its key. -/
abbrev Groups (κ α : Type) := List (κ × List α)

namespace Groups

variable {κ α : Type} [DecidableEq κ]

/-- The groups with one more item at the end of the group of a key. -/
def add (key : κ) (item : α) : Groups κ α → Groups κ α
  | [] => [(key, [item])]
  | (other, items) :: rest =>
    if other = key then (other, items ++ [item]) :: rest else (other, items) :: add key item rest

/-- The items of the group of a key; there are none without a group. -/
def items (key : κ) : Groups κ α → List α
  | [] => []
  | (other, found) :: rest => if other = key then found else items key rest

@[simp] theorem items_nil (key : κ) : items key ([] : Groups κ α) = [] := rfl

theorem items_cons (key other : κ) (found : List α) (rest : Groups κ α) :
    items key ((other, found) :: rest) = if other = key then found else items key rest := rfl

/-- One more item changes its own group alone. -/
theorem items_add (key other : κ) (item : α) (groups : Groups κ α) :
    items other (add key item groups) =
      if key = other then items other groups ++ [item] else items other groups := by
  induction groups with
  | nil => simp [add, items_cons]
  | cons entry rest ih =>
    obtain ⟨first, found⟩ := entry
    rw [add]
    by_cases hkey : first = key
    · rw [if_pos hkey, items_cons, items_cons]
      subst hkey
      split <;> rfl
    · rw [if_neg hkey, items_cons, items_cons, ih]
      by_cases hfirst : first = other
      · subst hfirst
        rw [if_pos rfl, if_pos rfl, if_neg fun e => hkey e.symm]
      · rw [if_neg hfirst, if_neg hfirst]

/-- A group gets the items of its key, in the order in which they come. -/
theorem items_foldl_add {β : Type} (keyOf : β → κ) (itemOf : β → α) (key : κ) (more : List β)
    (groups : Groups κ α) :
    items key (more.foldl (fun groups b => add (keyOf b) (itemOf b) groups) groups) =
      items key groups ++ (more.filter fun b => keyOf b = key).map itemOf := by
  induction more generalizing groups with
  | nil => simp
  | cons b more ih =>
    rw [List.foldl_cons, ih, items_add]
    by_cases hkey : keyOf b = key <;> simp [hkey]

end Groups

end TypeBench
