import TypeBench.Tree.Basic

/-!
# Nodes in their tree

A node is a subtree with the trees around it, so that one can look from it to its parent and to
the node's own children.

## Main definitions

* `Node`: a subtree and its ancestors, the nearest one first.
* `Node.parent?`, `Node.children`: the neighbours of a node.
* `Tree.child?`: the first child that fills a field.
* `Tree.sameNode`: trees of one kind with one span.

## Main results

* `Node.sizes_children`: the children of a node have one node less than it has.
-/

namespace TypeBench

namespace Tree

/-- The first child that fills a field. -/
def child? (tree : Tree) (field : Text) : Option Tree :=
  tree.children.find? fun child => child.info.field = some field

/-- Two nodes of a source unit are taken for the same if they agree in kind and span. -/
def sameNode (a b : Tree) : Bool :=
  a.info.kind = b.info.kind && a.info.start = b.info.start && a.info.stop = b.info.stop

/-- Whether a node is taken for the same as the first child of its parent in a field. -/
def isChild (parent : Tree) (field : Text) (tree : Tree) : Bool :=
  match parent.child? field with
  | some child => child.sameNode tree
  | none => false

end Tree

/-- A subtree and its ancestors, the nearest one first. -/
structure Node where
  tree : Tree
  ancestors : List Tree

namespace Node

/-- The root of a tree. -/
def ofTree (tree : Tree) : Node := ⟨tree, []⟩

/-- The node around a node. -/
def parent? (n : Node) : Option Node :=
  match n.ancestors with
  | [] => none
  | parent :: rest => some ⟨parent, rest⟩

/-- The children of a node. -/
def children (n : Node) : List Node :=
  n.tree.children.map fun child => ⟨child, n.tree :: n.ancestors⟩

/-- The kind of a node. -/
def kind (n : Node) : NodeKind := n.tree.info.kind

/-- The number of nodes of a list of subtrees. -/
def sizes (nodes : List Node) : Nat := Tree.sizes (nodes.map (·.tree))

@[simp] theorem sizes_nil : sizes [] = 0 := by
  simp [sizes]

@[simp] theorem sizes_cons (n : Node) (rest : List Node) :
    sizes (n :: rest) = n.tree.size + sizes rest := by
  simp [sizes]

@[simp] theorem sizes_append (nodes more : List Node) :
    sizes (nodes ++ more) = sizes nodes + sizes more := by
  simp [sizes]

theorem sizes_children (n : Node) : sizes n.children + 1 = n.tree.size := by
  have h : n.children.map (·.tree) = n.tree.children := by
    simp [children, Function.comp_def]
  rw [sizes, h, Tree.size_eq, Nat.add_comm]

end Node

end TypeBench
