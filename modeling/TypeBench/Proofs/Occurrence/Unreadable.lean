import Mathlib.Data.List.TakeWhile
import TypeBench.Proofs.Occurrence.Faithful

/-!
# Trees with unreadable places

A place that cannot be read ends the walk at the identifier that stands there, and has no other
effect: what was found before is what a tree without such places gives there. Nothing but the place
of an identifier is kept from the walk; its name, its surroundings, the scopes around it and the
usages over the whole source unit can be read all the same.

## Main definitions

* `Tree.mended`, `SourceUnit.mended`: the same tree, with all places readable.
* `SourceUnit.ownOccurrences`: the occurrences of nodes whose places can be read.
* `SourceUnit.visited`: the occurrences before the first identifier whose place cannot be read.

## Main results

* `SourceUnit.found_trace`: the walk finds the visited occurrences.
* `SourceUnit.reached_mended`, `SourceUnit.ownOccurrence?_mended`: a mended tree has the same nodes
  with the same occurrences.
* `SourceUnit.visited_prefix_mended`: what is visited comes first in what a mended tree gives.
-/

namespace TypeBench

/-! ### Mended trees -/

namespace Tree

mutual

/-- The same tree, with all places readable. -/
def mended : Tree → Tree
  | node info children => node info.mended (mendedAll children)

/-- The same trees side by side, with all places readable. -/
def mendedAll : List Tree → List Tree
  | [] => []
  | tree :: rest => mended tree :: mendedAll rest

end

theorem mendedAll_eq_map (trees : List Tree) : mendedAll trees = trees.map mended := by
  induction trees with
  | nil => rw [mendedAll, List.map_nil]
  | cons tree rest ih => rw [mendedAll, ih, List.map_cons]

@[simp] theorem info_mended (tree : Tree) : tree.mended.info = tree.info.mended := by
  cases tree with
  | node => rw [mended]; rfl

@[simp] theorem children_mended (tree : Tree) :
    tree.mended.children = tree.children.map mended := by
  cases tree with
  | node => rw [mended, ← mendedAll_eq_map]; rfl

theorem isFaithful_mended : IsFaithful mended where
  info_mended tree := by
    rw [info_mended]
    rfl
  children_map _ := children_mended _

end Tree

/-- The same node of the mended tree. -/
def Node.mended (n : Node) : Node := ⟨n.tree.mended, n.ancestors.map Tree.mended⟩

namespace SourceUnit

/-- The same source unit, with all places readable. -/
def mended (u : SourceUnit) : SourceUnit := { u with tree := u.tree.mended }

variable (u : SourceUnit)

/-- The usages are read without any place. -/
theorem usages_mended : UsageIndex.ofUnit u.mended = UsageIndex.ofUnit u :=
  u.usages_map Tree.isFaithful_mended

/-- The recursion reaches the same nodes of a mended tree. -/
theorem reached_mended : u.mended.reached = u.reached.map Node.mended :=
  u.reached_map Tree.isFaithful_mended

/-- A node of a mended tree is the same occurrence. -/
theorem ownOccurrence?_mended (usages : UsageIndex) {n : Node} (h : n.IsOutside) :
    u.mended.ownOccurrence? usages n.mended = u.ownOccurrence? usages n :=
  u.ownOccurrence?_map Tree.isFaithful_mended usages h

/-- Every place of a mended tree can be read. -/
theorem not_isUnreadable_mended (n : Node) : ¬u.mended.IsUnreadable n.mended := by
  rintro ⟨-, hplace⟩
  have hreadable : n.mended.tree.info.unreadable = none :=
    congrArg NodeInfo.unreadable n.tree.info_mended
  exact hplace hreadable

/-! ### What a walk visits -/

instance (n : Node) : Decidable (u.IsUnreadable n) := inferInstanceAs (Decidable (_ ∧ _))

/-- The occurrences of nodes whose places can be read. -/
def ownOccurrences (nodes : List Node) : List Occurrence :=
  nodes.flatMap fun n => (u.ownOccurrence? (UsageIndex.ofUnit u) n).toList

/-- The occurrences before the first identifier whose place cannot be read. -/
def visited : List Occurrence :=
  u.ownOccurrences (u.reached.takeWhile fun n => ¬u.IsUnreadable n)

theorem found_readThrough (nodes : List Node) (scopes : ScopeStack) :
    (u.readThrough (UsageIndex.ofUnit u) nodes ⟨[], none, scopes⟩).found =
      u.ownOccurrences (nodes.takeWhile fun n => ¬u.IsUnreadable n) := by
  induction nodes with
  | nil => rfl
  | cons n rest ih =>
    rw [readThrough]
    by_cases h : u.IsUnreadable n
    · obtain ⟨reason, hreason⟩ : ∃ reason,
          u.occurrence? (UsageIndex.ofUnit u) (u.pathOf n.ancestors) n = .error reason :=
        exists_error_of_unreadable h _
      rw [hreason, List.takeWhile_cons_of_neg (by simpa using h)]
      rfl
    · rw [occurrence?_of_readable h, List.takeWhile_cons_of_pos (by simpa using h)]
      exact congrArg _ ih

/-- The walk finds the visited occurrences. -/
theorem found_trace : u.trace.found = u.visited := by
  rw [trace_eq_readThrough, found_readThrough]
  rfl

/-- In a mended tree the occurrences of all nodes are visited. -/
theorem visited_mended : u.mended.visited = u.ownOccurrences u.reached := by
  have hall : (u.mended.reached.takeWhile fun n => ¬u.mended.IsUnreadable n) =
      u.mended.reached := by
    rw [List.takeWhile_eq_self_iff, reached_mended, List.forall_mem_map]
    intro n _
    simpa using u.not_isUnreadable_mended n
  rw [visited, hall, ownOccurrences, ownOccurrences, reached_mended, List.flatMap_map,
    usages_mended]
  refine List.flatMap_congr fun n hn => ?_
  rw [u.ownOccurrence?_mended _ (u.isOutside_of_mem_reached n hn)]

/-- What is visited comes first in what a mended tree gives. -/
theorem visited_prefix_mended : u.visited <+: u.mended.visited := by
  rw [visited_mended]
  obtain ⟨rest, hrest⟩ := u.reached.takeWhile_prefix fun n => decide ¬u.IsUnreadable n
  refine ⟨u.ownOccurrences rest, ?_⟩
  rw [visited, ownOccurrences, ownOccurrences, ownOccurrences, ← List.flatMap_append, hrest]

end SourceUnit

end TypeBench
