import Mathlib.Data.List.Induction
import TypeBench.TestCase.Loading

/-!
# Repeated ids

The search for repeated ids goes through them once. After any of them it has seen exactly those that
have occurred, and has found exactly those that have occurred twice.

## Main definitions

* `IsRepeated`: the ids that a list repeats, in the order of their second occurrences.

## Main results

* `TestCase.isRepeated_repeatedIds`: the search finds the repeated ids.
* `IsRepeated.eq_nil_iff`: no id is repeated if and only if all are different.
-/

namespace TypeBench

/-- The ids that a list repeats: those that occur twice, each once; of two of them the one that
comes first in `repeated` has occurred twice at a place where the other one has not. -/
structure IsRepeated (ids repeated : List Text) : Prop where
  nodup : repeated.Nodup
  mem_iff : ∀ id, id ∈ repeated ↔ 2 ≤ ids.count id
  pairwise : repeated.Pairwise fun a b => ∃ before, before <+: ids ∧ 2 ≤ before.count a ∧
    before.count b < 2

namespace IsRepeated

variable {ids repeated : List Text}

/-- No id is repeated if and only if all are different. -/
theorem eq_nil_iff (h : IsRepeated ids repeated) : repeated = [] ↔ ids.Nodup := by
  rw [List.eq_nil_iff_forall_not_mem, List.nodup_iff_count]
  refine forall_congr' fun id => ?_
  rw [h.mem_iff]
  omega

/-- An id that is all there is, and comes twice, is repeated. -/
theorem eq_singleton {id : Text} (h : IsRepeated [id, id] repeated) : repeated = [id] := by
  refine List.perm_singleton.1 ((List.perm_ext_iff_of_nodup h.nodup
    (List.pairwise_singleton _ _)).2 fun other => ?_)
  rw [h.mem_iff, List.mem_singleton]
  by_cases hother : other = id
  · simp [hother]
  · simp [hother, Ne.symm hother]

theorem pairwise_append (h : IsRepeated ids repeated) (id : Text) :
    repeated.Pairwise fun a b => ∃ before, before <+: ids ++ [id] ∧ 2 ≤ before.count a ∧
      before.count b < 2 := by
  refine h.pairwise.imp ?_
  rintro a b ⟨before, hbefore, hcount⟩
  exact ⟨before, hbefore.trans (List.prefix_append ids [id]), hcount⟩

/-- An id is repeated when it comes a second time. -/
theorem append_of_count_eq_one (h : IsRepeated ids repeated) {id : Text} (hid : ids.count id = 1) :
    IsRepeated (ids ++ [id]) (repeated ++ [id]) := by
  have hnew : id ∉ repeated := by
    rw [h.mem_iff, hid]
    omega
  refine ⟨?_, fun other => ?_, ?_⟩
  · rw [List.nodup_append]
    refine ⟨h.nodup, List.pairwise_singleton _ _, fun a ha b hb => ?_⟩
    rw [List.mem_singleton.1 hb]
    exact ne_of_mem_of_not_mem ha hnew
  · rw [List.mem_append, h.mem_iff, List.mem_singleton, List.count_append]
    by_cases hother : other = id
    · subst hother
      simp [hid]
    · simp [hother, Ne.symm hother]
  · rw [List.pairwise_append]
    refine ⟨h.pairwise_append id, List.pairwise_singleton _ _, fun a ha b hb => ?_⟩
    rw [List.mem_singleton.1 hb]
    exact ⟨ids, List.prefix_append ids [id], (h.mem_iff a).1 ha, by omega⟩

/-- An id is not repeated when it comes for the first time, and it is known to be when it comes
later on. -/
theorem append_of_count_ne_one (h : IsRepeated ids repeated) {id : Text} (hid : ids.count id ≠ 1) :
    IsRepeated (ids ++ [id]) repeated := by
  refine ⟨h.nodup, fun other => ?_, h.pairwise_append id⟩
  rw [h.mem_iff, List.count_append, List.count_singleton]
  by_cases hother : other = id
  · subst hother
    simp only [beq_self_eq_true, if_true]
    omega
  · simp [Ne.symm hother]

end IsRepeated

/-- What is known of a search after some ids. -/
structure IdSearch.Tells (search : IdSearch) (ids : List Text) : Prop where
  mem_seen_iff : ∀ id, id ∈ search.seen ↔ id ∈ ids
  isRepeated : IsRepeated ids search.repeated

namespace IdSearch

theorem tells_nil : Tells ⟨[], []⟩ [] :=
  ⟨fun _ => Iff.rfl, List.Pairwise.nil, by simp, List.Pairwise.nil⟩

theorem seen_next (search : IdSearch) (id : Text) : (search.next id).seen =
    if search.seen.contains id then search.seen else id :: search.seen := rfl

theorem repeated_next (search : IdSearch) (id : Text) : (search.next id).repeated =
    if search.seen.contains id && !search.repeated.contains id then search.repeated ++ [id]
    else search.repeated := rfl

/-- One more id is found to be repeated if and only if it has occurred once. -/
theorem Tells.repeated_next {search : IdSearch} {ids : List Text} (h : search.Tells ids)
    (id : Text) : (search.next id).repeated =
      if ids.count id = 1 then search.repeated ++ [id] else search.repeated := by
  have hseen : search.seen.contains id = true ↔ 0 < ids.count id := by
    rw [List.contains_iff_mem, h.mem_seen_iff, List.count_pos_iff]
  have hrepeated : search.repeated.contains id = true ↔ 2 ≤ ids.count id := by
    rw [List.contains_iff_mem, h.isRepeated.mem_iff]
  have hid : (search.seen.contains id && !search.repeated.contains id) = true ↔
      ids.count id = 1 := by
    rw [Bool.and_eq_true, hseen, Bool.not_eq_true', ← Bool.not_eq_true, hrepeated]
    omega
  simp only [IdSearch.repeated_next, hid]

/-- The search tells of one more id. -/
theorem Tells.next {search : IdSearch} {ids : List Text} (h : search.Tells ids) (id : Text) :
    (search.next id).Tells (ids ++ [id]) := by
  constructor
  · intro other
    rw [List.mem_append, List.mem_singleton, ← h.mem_seen_iff, seen_next]
    split_ifs with hid
    · rw [List.contains_iff_mem] at hid
      refine ⟨.inl, ?_⟩
      rintro (hother | rfl)
      · exact hother
      · exact hid
    · rw [List.mem_cons, or_comm]
  · rw [h.repeated_next]
    split_ifs with hid
    · exact h.isRepeated.append_of_count_eq_one hid
    · exact h.isRepeated.append_of_count_ne_one hid

theorem tells_foldl (ids : List Text) : (ids.foldl next ⟨[], []⟩).Tells ids := by
  induction ids using List.reverseRecOn with
  | nil => exact tells_nil
  | append_singleton ids id ih =>
    rw [List.foldl_append]
    exact ih.next id

end IdSearch

/-- The search finds the repeated ids. -/
theorem TestCase.isRepeated_repeatedIds (cases : List TestCase) :
    IsRepeated (cases.map (·.id)) (repeatedIds cases) :=
  (IdSearch.tells_foldl _).isRepeated

end TypeBench
