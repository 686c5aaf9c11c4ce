import TypeBench.Proofs.Number.Exact
import TypeBench.Proofs.Text.Order

/-!
# Maps of labels

A map of shares has every label of a list once, in the order in which the labels first came, and a
map of harmonic means has the labels of two maps. With exact numbers nothing need be asked of a
label to know its share or its mean: a label that is missing has zero, and so has a quotient by
zero.

## Main definitions

* `InFirstOrder`: the items of a list, each once and in the order in which they first came.

## Main results

* `LabelMap.lookup_shares`, `LabelMap.valueOf_shares`: the share of a label.
* `LabelMap.inFirstOrder_shares`: the labels of a map of shares.
* `LabelMap.names_harmonicMean`, `LabelMap.valueOf_harmonicMean`: labels and values of means.
-/

namespace TypeBench

/-- The items of a list, each of them once and in the order in which they first came. -/
structure InFirstOrder {α : Type} [BEq α] (keys items : List α) : Prop where
  mem_iff : ∀ key, key ∈ keys ↔ key ∈ items
  pairwise : keys.Pairwise fun a b => items.idxOf a < items.idxOf b

theorem inFirstOrder_eraseDups {α : Type} [BEq α] [LawfulBEq α] (items : List α) :
    InFirstOrder items.eraseDups items where
  mem_iff _ := List.mem_eraseDups
  pairwise := by simpa using pairwise_eraseDups (fun _ => true) items

namespace LabelMap

/-! ### Maps of shares -/

section Keyed

variable {R : Type}

theorem lookup_keyed (labels : List Text) (value : Text → R) (label : Text) :
    (labels.map fun l => (l, value l)).lookup label =
      if label ∈ labels then some (value label) else none := by
  induction labels with
  | nil => rfl
  | cons first rest ih =>
    rw [List.map_cons, Named.lookup_cons, ih]
    by_cases h : label = first
    · subst h
      rw [if_pos rfl, if_pos List.mem_cons_self]
    · simp only [h, if_false, List.mem_cons, false_or]

theorem names_append (map others : LabelMap R) :
    Named.names (map ++ others) = Named.names map ++ Named.names others :=
  List.map_append

theorem names_keyed (labels : List Text) (value : Text → R) :
    Named.names (labels.map fun l => (l, value l)) = labels := by
  rw [Named.names, List.map_map, Function.comp_def, List.map_id']

end Keyed

section Shares

variable {R : Type} [Quantity R]

theorem names_shares (correct labels : List Text) :
    Named.names (shares R correct labels) = labels.eraseDups :=
  names_keyed _ _

theorem nodup_names_shares (correct labels : List Text) :
    (Named.names (shares R correct labels)).Nodup := by
  rw [names_shares]
  exact nodup_eraseDups labels

theorem mem_names_shares {correct labels : List Text} {label : Text} :
    label ∈ Named.names (shares R correct labels) ↔ label ∈ labels := by
  rw [names_shares, List.mem_eraseDups]

theorem inFirstOrder_shares (correct labels : List Text) :
    InFirstOrder (Named.names (shares R correct labels)) labels := by
  rw [names_shares]
  exact inFirstOrder_eraseDups labels

theorem lookup_shares (correct labels : List Text) (label : Text) :
    (shares R correct labels).lookup label =
      if label ∈ labels then some (Quantity.ratio (correct.count label) (labels.count label))
      else none := by
  rw [shares, lookup_keyed]
  simp only [List.mem_eraseDups]

/-- A label that is missing has zero. -/
theorem valueOf_of_notMem {map : LabelMap R} {label : Text} (h : label ∉ Named.names map) :
    map.valueOf label = Quantity.zero := by
  rw [Named.mem_names_iff, not_not] at h
  rw [valueOf, h]
  rfl

/-- The labels of a map of means are those of the first map, and then the others of the second. -/
theorem names_harmonicMean {precisions recalls : LabelMap R}
    (hprecisions : (Named.names precisions).Nodup) (hrecalls : (Named.names recalls).Nodup) :
    Named.names (harmonicMean precisions recalls) = Named.names precisions ++
      (Named.names recalls).filter fun label => label ∉ Named.names precisions := by
  have hothers : (Named.names recalls).removeAll (Named.names precisions) =
      (Named.names recalls).filter fun label => label ∉ Named.names precisions :=
    List.filter_congr fun label _ => by simp
  rw [harmonicMean, names_keyed, names_append, List.eraseDups_append,
    eraseDups_eq_self hprecisions, hothers, eraseDups_eq_self (hrecalls.filter _)]

theorem lookup_harmonicMean (precisions recalls : LabelMap R) (label : Text) :
    (harmonicMean precisions recalls).lookup label =
      if label ∈ Named.names precisions ++ Named.names recalls then
        some (Quantity.harmonicMean (precisions.valueOf label) (recalls.valueOf label))
      else none := by
  rw [harmonicMean, lookup_keyed, names_append]
  simp only [List.mem_eraseDups]

end Shares

/-! ### Exact numbers -/

/-- The share of any label. -/
theorem valueOf_shares (correct labels : List Text) (label : Text) :
    (shares ℚ correct labels).valueOf label = correct.count label / labels.count label := by
  rw [valueOf, lookup_shares]
  split_ifs with h
  · exact Exact.ratio_eq _ _
  · rw [List.count_eq_zero.2 h, Nat.cast_zero, div_zero]
    exact Exact.zero_eq

theorem valueOf_shares_nonneg (correct labels : List Text) (label : Text) :
    0 ≤ (shares ℚ correct labels).valueOf label := by
  rw [valueOf_shares]
  exact div_nonneg (Nat.cast_nonneg _) (Nat.cast_nonneg _)

/-- The harmonic mean of any label. -/
theorem valueOf_harmonicMean (precisions recalls : LabelMap ℚ) (label : Text) :
    (harmonicMean precisions recalls).valueOf label =
      Quantity.harmonicMean (precisions.valueOf label) (recalls.valueOf label) := by
  rw [valueOf, lookup_harmonicMean]
  split_ifs with h
  · rfl
  · rw [List.mem_append, not_or] at h
    rw [valueOf_of_notMem h.1, valueOf_of_notMem h.2, Exact.zero_eq, Exact.harmonicMean_zero_left]
    exact Exact.zero_eq

end LabelMap

end TypeBench
