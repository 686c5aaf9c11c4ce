import TypeBench.Tree.Node

/-!
# Walks over a tree

Walks keep the nodes still to come on a stack, so that their depth is not bounded by that of the
tree.

## Main definitions

* `Node.namedFrom`, `Tree.namedNodes`: the named nodes in the order of the source, without those
  in a stretch that fits no rule.
* `Tree.faultsFrom`, `Tree.errorCount`: the number of faults, found through the error marks.
-/

namespace TypeBench

/-- The named nodes on a stack and below. -/
def Node.namedFrom : List Node → List Node
  | [] => []
  | n :: rest =>
    if n.tree.isError then namedFrom rest
    else if n.tree.info.isNamed then n :: namedFrom (n.children ++ rest)
    else namedFrom (n.children ++ rest)
termination_by stack => Node.sizes stack
decreasing_by
  · have := n.tree.size_pos
    simp
    omega
  all_goals
    have := n.sizes_children
    simp
    omega

namespace Tree

/-- The named nodes of a tree. -/
def namedNodes (tree : Tree) : List Node := Node.namedFrom [Node.ofTree tree]

/-- The number of faults on a stack and below. Nothing is looked for inside a fault, nor where no
error is marked. -/
def faultsFrom : List Tree → Nat
  | [] => 0
  | tree :: rest =>
    if tree.isFault then 1 + faultsFrom rest
    else if tree.info.hasError then faultsFrom (tree.children ++ rest)
    else faultsFrom rest
termination_by stack => sizes stack
decreasing_by
  all_goals
    have := tree.size_pos
    have := tree.size_eq
    simp
    omega

/-- The number of faults of a tree; a root without an error mark has none. -/
def errorCount (tree : Tree) : Nat :=
  if tree.info.hasError then faultsFrom [tree] else 0

end Tree

end TypeBench
