import Mathlib.Data.List.Basic
import TypeBench.Proofs.Occurrence.Order

/-!
# All nodes of a tree

A node is told by its path, the numbers of the children that lead to it from the root. Taken in the
order of their paths, in which a path comes before those that go on from it and otherwise the first
number that differs decides, the nodes stand as in the source, each of them once and before the
nodes below it. The walk over named nodes lists just those that no stretch without a rule holds, in
this order.

## Main definitions

* `Tree.nodes`: all nodes of a tree with the trees around them, each before those below it.
* `Node.at?`, `Tree.paths`: the node at a path, and the paths of all nodes.
* `Node.IsListed`: a named node that no stretch without a rule holds.

## Main results

* `Tree.map_tree_nodes`: the nodes are the subtrees.
* `Tree.pairwise_lt_paths`, `Tree.mem_paths_iff`, `Tree.map_at?_paths`: every node has one path, and
  the nodes stand in the order of their paths.
* `Tree.namedNodes_eq_filter`: the walk over named nodes lists some of all nodes.
* `Tree.exists_paths_namedNodes`: the nodes that it lists, told by their paths.
-/

namespace TypeBench

namespace Tree

/-! ### Nodes with the trees around them -/

mutual

/-- All nodes of a tree inside others, the nearest one first. A node comes before those below it. -/
def nodes (outer : List Tree) : Tree → List Node
  | node info children =>
    ⟨node info children, outer⟩ :: nodesOf (node info children :: outer) children

/-- All nodes of trees side by side. -/
def nodesOf (outer : List Tree) : List Tree → List Node
  | [] => []
  | tree :: rest => nodes outer tree ++ nodesOf outer rest

end

theorem nodes_eq (outer : List Tree) (tree : Tree) :
    nodes outer tree = ⟨tree, outer⟩ :: nodesOf (tree :: outer) tree.children := by
  cases tree with
  | node => rw [nodes]; rfl

theorem nodesOf_eq_flatMap (outer trees : List Tree) :
    nodesOf outer trees = trees.flatMap (nodes outer) := by
  induction trees with
  | nil => rw [nodesOf, List.flatMap_nil]
  | cons tree rest ih => rw [nodesOf, ih, List.flatMap_cons]

mutual

/-- The nodes are the subtrees. -/
theorem map_tree_nodes (outer : List Tree) : (tree : Tree) →
    (nodes outer tree).map (·.tree) = tree.subtrees
  | node info children => by
    rw [nodes, subtrees, List.map_cons, map_tree_nodesOf (node info children :: outer) children]

theorem map_tree_nodesOf (outer : List Tree) : (trees : List Tree) →
    (nodesOf outer trees).map (·.tree) = subtreesOf trees
  | [] => by rw [nodesOf, subtreesOf, List.map_nil]
  | tree :: rest => by
    rw [nodesOf, subtreesOf, List.map_append, map_tree_nodes outer tree,
      map_tree_nodesOf outer rest]

end

mutual

/-- The root of a tree, with what is around it, is a node or is around it. -/
theorem suffix_of_mem_nodes (outer : List Tree) : (tree : Tree) →
    ∀ n ∈ nodes outer tree, tree :: outer <:+ n.tree :: n.ancestors
  | node info children => by
    rw [nodes]
    refine List.forall_mem_cons.2 ⟨List.suffix_rfl, fun n hn => ?_⟩
    exact (suffix_of_mem_nodesOf (node info children :: outer) children n hn).trans
      (List.suffix_cons _ _)

theorem suffix_of_mem_nodesOf (outer : List Tree) : (trees : List Tree) →
    ∀ n ∈ nodesOf outer trees, outer <:+ n.ancestors
  | [] => by
    rw [nodesOf]
    exact nofun
  | tree :: rest => by
    rw [nodesOf]
    refine List.forall_mem_append.2 ⟨fun n hn => ?_, suffix_of_mem_nodesOf outer rest⟩
    rcases List.suffix_cons_iff.1 (suffix_of_mem_nodes outer tree n hn) with heq | hsuffix
    · exact (List.cons.inj heq).2 ▸ List.suffix_rfl
    · exact (List.suffix_cons tree outer).trans hsuffix

end

end Tree

/-! ### Paths -/

/-- The node at a path: the numbers of the children that lead to it. -/
def Node.at? (n : Node) : List Nat → Option Node
  | [] => some n
  | i :: path => n.children[i]?.bind fun child => child.at? path

namespace Tree

mutual

/-- The paths of all nodes of a tree. -/
def paths : Tree → List (List Nat)
  | node _ children => [] :: pathsFrom 0 children

/-- The paths of all nodes of trees side by side, which are numbered from a number on. -/
def pathsFrom (first : Nat) : List Tree → List (List Nat)
  | [] => []
  | tree :: rest => (paths tree).map (first :: ·) ++ pathsFrom (first + 1) rest

end

theorem le_of_mem_pathsFrom {first : Nat} {trees : List Tree} {path : List Nat}
    (h : path ∈ pathsFrom first trees) : ∃ i below, path = i :: below ∧ first ≤ i := by
  induction trees generalizing first with
  | nil =>
    rw [pathsFrom] at h
    cases h
  | cons tree rest ih =>
    rw [pathsFrom] at h
    rcases List.mem_append.1 h with h | h
    · obtain ⟨below, -, rfl⟩ := List.mem_map.1 h
      exact ⟨first, below, rfl, Nat.le_refl first⟩
    · obtain ⟨i, below, rfl, hle⟩ := ih h
      exact ⟨i, below, rfl, Nat.le_of_succ_le hle⟩

mutual

/-- The paths rise. -/
theorem pairwise_lt_paths : (tree : Tree) → (paths tree).Pairwise (· < ·)
  | node info children => by
    rw [paths]
    refine List.pairwise_cons.2 ⟨fun path hpath => ?_, pairwise_lt_pathsFrom 0 children⟩
    obtain ⟨i, below, rfl, -⟩ := le_of_mem_pathsFrom hpath
    exact List.nil_lt_cons i below

theorem pairwise_lt_pathsFrom (first : Nat) : (trees : List Tree) →
    (pathsFrom first trees).Pairwise (· < ·)
  | [] => by
    rw [pathsFrom]
    exact .nil
  | tree :: rest => by
    rw [pathsFrom]
    refine List.pairwise_append.2
      ⟨List.pairwise_map.2 ((pairwise_lt_paths tree).imp fun hlt => ?_),
        pairwise_lt_pathsFrom (first + 1) rest, fun path hpath path' hpath' => ?_⟩
    · exact List.cons_lt_cons_iff.2 (.inr ⟨rfl, hlt⟩)
    · obtain ⟨below, -, rfl⟩ := List.mem_map.1 hpath
      obtain ⟨i, below', rfl, hle⟩ := le_of_mem_pathsFrom hpath'
      exact List.cons_lt_cons_iff.2 (.inl hle)

end

mutual

/-- The nodes stand in the order of their paths. -/
theorem map_at?_paths (outer : List Tree) : (tree : Tree) →
    (paths tree).map (Node.mk tree outer).at? = (nodes outer tree).map some
  | node info children => by
    rw [paths, nodes, List.map_cons, List.map_cons,
      map_at?_pathsFrom ⟨node info children, outer⟩ 0 children rfl]
    rfl

theorem map_at?_pathsFrom (n : Node) (first : Nat) : (trees : List Tree) →
    n.tree.children.drop first = trees →
    (pathsFrom first trees).map n.at? = (nodesOf (n.tree :: n.ancestors) trees).map some
  | [], _ => by rw [pathsFrom, nodesOf, List.map_nil, List.map_nil]
  | tree :: rest, h => by
    have hchild : n.children[first]? = some ⟨tree, n.tree :: n.ancestors⟩ := by
      rw [Node.children, List.getElem?_map, ← Nat.add_zero first, ← List.getElem?_drop, h]
      rfl
    have hrest : n.tree.children.drop (first + 1) = rest := by
      rw [← List.drop_drop, h, List.drop_one, List.tail_cons]
    have hbelow (path : List Nat) :
        n.at? (first :: path) = (Node.mk tree (n.tree :: n.ancestors)).at? path := by
      rw [Node.at?, hchild, Option.bind_some]
    rw [pathsFrom, nodesOf, List.map_append, List.map_append, List.map_map,
      map_at?_pathsFrom n (first + 1) rest hrest, ← map_at?_paths (n.tree :: n.ancestors) tree]
    exact congrArg (· ++ _) (List.map_congr_left fun path _ => hbelow path)

end

theorem mem_pathsFrom (first : Nat) {i : Nat} {trees : List Tree} {tree : Tree}
    {path : List Nat} (htree : trees[i]? = some tree) (hpath : path ∈ paths tree) :
    (first + i) :: path ∈ pathsFrom first trees := by
  induction trees generalizing first i with
  | nil => cases htree
  | cons head rest ih =>
    rw [pathsFrom]
    cases i with
    | zero =>
      obtain rfl := Option.some.inj htree
      exact List.mem_append_left _ (List.mem_map_of_mem hpath)
    | succ i =>
      have hrest := ih (first + 1) htree
      rw [Nat.add_right_comm] at hrest
      exact List.mem_append_right _ hrest

/-- A path leads to a node if and only if it is one of the paths. -/
theorem mem_paths_iff (outer : List Tree) {tree : Tree} {path : List Nat} :
    path ∈ paths tree ↔ ∃ n, (Node.mk tree outer).at? path = some n := by
  constructor
  · intro h
    have hmem := List.mem_map_of_mem (f := (Node.mk tree outer).at?) h
    rw [map_at?_paths] at hmem
    obtain ⟨n, -, hn⟩ := List.mem_map.1 hmem
    exact ⟨n, hn.symm⟩
  · rintro ⟨n, hn⟩
    induction path generalizing tree outer with
    | nil =>
      cases tree with
      | node => rw [paths]; exact List.mem_cons_self
    | cons i path ih =>
      obtain ⟨child, hchild, hbelow⟩ := Option.bind_eq_some_iff.1 hn
      rw [Node.children, List.getElem?_map, Option.map_eq_some_iff] at hchild
      obtain ⟨below, htree, rfl⟩ := hchild
      have hpath := mem_pathsFrom 0 htree (ih _ hbelow)
      rw [Nat.zero_add] at hpath
      cases tree with
      | node => rw [paths]; exact List.mem_cons_of_mem _ hpath

end Tree

/-! ### Named nodes -/

/-- A named node that no stretch without a rule holds. -/
def Node.IsListed (n : Node) : Prop := n.tree.info.isNamed = true ∧ n.IsOutside

instance (n : Node) : Decidable n.IsOutside :=
  inferInstanceAs (Decidable (∀ tree ∈ n.tree :: n.ancestors, tree.isError = false))

instance (n : Node) : Decidable n.IsListed := inferInstanceAs (Decidable (_ ∧ _))

namespace Tree

/-- A stretch that fits no rule lists nothing. -/
theorem filter_isListed_of_isError {outer : List Tree} {tree : Tree} (h : tree.isError = true) :
    (nodes outer tree).filter (·.IsListed) = [] := by
  refine List.filter_eq_nil_iff.2 fun n hn hlisted => ?_
  have hmem : tree ∈ n.tree :: n.ancestors :=
    (suffix_of_mem_nodes outer tree n hn).subset List.mem_cons_self
  have hfits : tree.isError = false := (of_decide_eq_true hlisted).2 tree hmem
  rw [h] at hfits
  cases hfits

/-- The walk over named nodes lists some of all nodes on the stack and below. -/
theorem namedFrom_eq_filter {stack : List Node}
    (h : ∀ n ∈ stack, ∀ tree ∈ n.ancestors, tree.isError = false) :
    Node.namedFrom stack =
      stack.flatMap fun n => (nodes n.ancestors n.tree).filter (·.IsListed) := by
  have hbelow (n : Node) : (n.children.flatMap fun child =>
      (nodes child.ancestors child.tree).filter (·.IsListed)) =
        (nodesOf (n.tree :: n.ancestors) n.tree.children).filter (·.IsListed) := by
    rw [nodesOf_eq_flatMap, List.filter_flatMap, Node.children, List.flatMap_map]
  induction stack using Node.namedFrom.induct with
  | case1 => rw [Node.namedFrom, List.flatMap_nil]
  | case2 n rest herror ih =>
    rw [Node.namedFrom, if_pos herror, List.flatMap_cons, filter_isListed_of_isError herror,
      ih (List.forall_mem_cons.1 h).2, List.nil_append]
  | case3 n rest herror hname ih =>
    obtain ⟨hn, hrest⟩ := List.forall_mem_cons.1 h
    have hinside : n.IsOutside := List.forall_mem_cons.2 ⟨Bool.eq_false_iff.2 herror, hn⟩
    have hlisted : decide n.IsListed = true := decide_eq_true ⟨hname, hinside⟩
    rw [Node.namedFrom, if_neg herror, if_pos hname, List.flatMap_cons, nodes_eq,
      List.filter_cons_of_pos (p := fun m : Node => m.IsListed) hlisted, List.cons_append,
      ← hbelow, ← List.flatMap_append,
      ih (List.forall_mem_append.2 ⟨hinside.ancestors_of_mem_children, hrest⟩)]
  | case4 n rest herror hname ih =>
    obtain ⟨hn, hrest⟩ := List.forall_mem_cons.1 h
    have hinside : n.IsOutside := List.forall_mem_cons.2 ⟨Bool.eq_false_iff.2 herror, hn⟩
    have hlisted : ¬decide n.IsListed = true := fun hlisted =>
      hname (of_decide_eq_true hlisted).1
    rw [Node.namedFrom, if_neg herror, if_neg hname, List.flatMap_cons, nodes_eq,
      List.filter_cons_of_neg (p := fun m : Node => m.IsListed) hlisted, ← hbelow,
      ← List.flatMap_append,
      ih (List.forall_mem_append.2 ⟨hinside.ancestors_of_mem_children, hrest⟩)]

/-- The walk over the named nodes of a tree lists some of all nodes. -/
theorem namedNodes_eq_filter (tree : Tree) :
    tree.namedNodes = (nodes [] tree).filter (·.IsListed) := by
  have hroot : ∀ n ∈ [Node.ofTree tree], ∀ outer ∈ n.ancestors, outer.isError = false :=
    List.forall_mem_singleton.2 fun _ houter => absurd houter List.not_mem_nil
  rw [namedNodes, namedFrom_eq_filter hroot, List.flatMap_singleton]
  rfl

/-- **Named nodes.** The walk lists the named nodes that no stretch without a rule holds, each of
them once, in the order of their paths. -/
theorem exists_paths_namedNodes (tree : Tree) :
    ∃ listed : List (List Nat), listed.Pairwise (· < ·) ∧
      listed.map (Node.ofTree tree).at? = tree.namedNodes.map some ∧
      ∀ path, path ∈ listed ↔ ∃ n, (Node.ofTree tree).at? path = some n ∧ n.IsListed := by
  let isListed (n? : Option Node) : Bool := n?.any fun n => n.IsListed
  refine ⟨(paths tree).filter fun path => isListed ((Node.ofTree tree).at? path),
    (pairwise_lt_paths tree).sublist List.filter_sublist, ?_, fun path => ?_⟩
  · have hsome : isListed ∘ some = fun n : Node => decide n.IsListed := rfl
    rw [namedNodes_eq_filter, ← hsome, ← List.filter_map, ← map_at?_paths, List.filter_map]
    rfl
  · rw [List.mem_filter, mem_paths_iff [], Option.any_eq_true]
    constructor
    · rintro ⟨-, n, hn, hlisted⟩
      exact ⟨n, hn, of_decide_eq_true hlisted⟩
    · rintro ⟨n, hn, hlisted⟩
      exact ⟨⟨n, hn⟩, n, hn, decide_eq_true hlisted⟩

end Tree

end TypeBench
