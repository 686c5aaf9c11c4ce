import TypeBench.Proofs.Approach.Prediction
import TypeBench.Proofs.Tree.Nodes

/-!
# Faults of a tree

Faults are counted from the root downwards: a node that is a fault counts once, with all that is
below it, and nothing is looked for where no error is marked. Where every node with a fault in it is
marked, as a parser marks them, no fault is missed, so the count is that of all faults with no other
one around them. It does not depend on the order of children, and it is positive if there is any
fault at all, which is when the baseline tells of faults.

## Main definitions

* `Tree.outermostFaults`: the number of faults with no other one around them, among all nodes.
* `Tree.HoldsFault`, `Tree.MarksFaults`: trees with a fault in them, and trees whose marks tell so.
* `Tree.Reordered`: trees that differ in the order of children alone.

## Main results

* `Tree.faultsFrom_append`: the faults on a stack are counted apart.
* `Tree.outermostFaults_eq`: outermost faults are counted from the root downwards.
* `Tree.MarksFaults.errorCount_eq`: where faults are marked none is missed.
* `Tree.Reordered.errorCount_eq`: the order of children makes no difference.
* `Baseline.faults_reported`: the number of faults, and when the baseline tells of it.
-/

namespace TypeBench

/-- Whether a node is a fault with no other one around it. -/
def Node.isOutermostFault (n : Node) : Bool :=
  n.tree.isFault && n.ancestors.all fun tree => !tree.isFault

theorem Node.isOutermostFault_mk {outer : List Tree} (h : ∀ tree ∈ outer, tree.isFault = false)
    (tree : Tree) : (Node.mk tree outer).isOutermostFault = tree.isFault := by
  have hall : (outer.all fun tree => !tree.isFault) = true :=
    List.all_eq_true.2 fun tree htree => by rw [h tree htree]; rfl
  rw [isOutermostFault, hall, Bool.and_true]

namespace Tree

/-! ### Outermost faults -/

/-- The number of faults with no other one around them, among all nodes of a tree. -/
def outermostFaults (tree : Tree) : Nat := (nodes [] tree).countP Node.isOutermostFault

/-- Inside a fault there is no outermost one. -/
theorem countP_nodesOf_of_isFault {outer : List Tree} {tree : Tree} (h : tree ∈ outer)
    (hfault : tree.isFault = true) (trees : List Tree) :
    (nodesOf outer trees).countP Node.isOutermostFault = 0 := by
  refine List.countP_eq_zero.2 fun n hn houtermost => ?_
  have hmem : tree ∈ n.ancestors := (suffix_of_mem_nodesOf outer trees n hn).subset h
  have hnone := List.all_eq_true.1 (Bool.and_eq_true_iff.1 houtermost).2 tree hmem
  rw [hfault] at hnone
  cases hnone

mutual

/-- What is around a tree makes no difference if there is no fault among it. -/
theorem countP_nodes {outer : List Tree} (h : ∀ tree ∈ outer, tree.isFault = false) :
    (tree : Tree) → (nodes outer tree).countP Node.isOutermostFault = outermostFaults tree
  | node info children => by
    rw [outermostFaults, nodes, nodes, List.countP_cons, List.countP_cons,
      Node.isOutermostFault_mk h, Node.isOutermostFault_mk (List.forall_mem_nil _)]
    cases hfault : (node info children).isFault with
    | true =>
      rw [countP_nodesOf_of_isFault List.mem_cons_self hfault,
        countP_nodesOf_of_isFault List.mem_cons_self hfault]
    | false =>
      rw [countP_nodesOf (List.forall_mem_cons.2 ⟨hfault, h⟩) children,
        countP_nodesOf (List.forall_mem_singleton.2 hfault) children]

theorem countP_nodesOf {outer : List Tree} (h : ∀ tree ∈ outer, tree.isFault = false) :
    (trees : List Tree) →
    (nodesOf outer trees).countP Node.isOutermostFault = (trees.map outermostFaults).sum
  | [] => by rw [nodesOf, List.countP_nil, List.map_nil, List.sum_nil]
  | tree :: rest => by
    rw [nodesOf, List.countP_append, countP_nodes h tree, countP_nodesOf h rest, List.map_cons,
      List.sum_cons]

end

/-- Outermost faults are counted from the root downwards: a fault counts once with all that is below
it. -/
theorem outermostFaults_eq (tree : Tree) :
    outermostFaults tree =
      if tree.isFault then 1 else (tree.children.map outermostFaults).sum := by
  rw [outermostFaults, nodes_eq, List.countP_cons,
    Node.isOutermostFault_mk (List.forall_mem_nil _)]
  cases hfault : tree.isFault with
  | true =>
    rw [countP_nodesOf_of_isFault List.mem_cons_self hfault]
    rfl
  | false => exact countP_nodesOf (List.forall_mem_singleton.2 hfault) tree.children

/-! ### Marks -/

/-- There is a fault in a tree. -/
def HoldsFault (tree : Tree) : Prop := ∃ t ∈ tree.subtrees, t.isFault = true

/-- Every node with a fault in it is marked. -/
def MarksFaults (tree : Tree) : Prop :=
  ∀ t ∈ tree.subtrees, t.HoldsFault → t.info.hasError = true

instance (tree : Tree) : Decidable tree.HoldsFault :=
  inferInstanceAs (Decidable (∃ t ∈ _, _))

instance (tree : Tree) : Decidable tree.MarksFaults :=
  inferInstanceAs (Decidable (∀ t ∈ _, _))

theorem subtreesOf_eq_flatMap (trees : List Tree) : subtreesOf trees = trees.flatMap subtrees := by
  induction trees with
  | nil => rw [subtreesOf, List.flatMap_nil]
  | cons tree rest ih => rw [subtreesOf, ih, List.flatMap_cons]

/-- A fault in a tree is the tree itself or in one of its children. -/
theorem holdsFault_iff {tree : Tree} :
    tree.HoldsFault ↔ tree.isFault = true ∨ ∃ child ∈ tree.children, child.HoldsFault := by
  simp only [HoldsFault, subtrees_eq tree, inner, subtreesOf_eq_flatMap, List.mem_cons,
    List.mem_flatMap, or_and_right, exists_or, exists_eq_left]
  refine or_congr_right ⟨?_, ?_⟩
  · rintro ⟨t, ⟨child, hchild, ht⟩, hfault⟩
    exact ⟨child, hchild, t, ht, hfault⟩
  · rintro ⟨child, hchild, t, ht, hfault⟩
    exact ⟨t, ⟨child, hchild, ht⟩, hfault⟩

theorem MarksFaults.root {tree : Tree} (h : tree.MarksFaults) (hfault : tree.HoldsFault) :
    tree.info.hasError = true :=
  h tree (subtrees_eq tree ▸ List.mem_cons_self) hfault

/-- The children of a marked tree are marked. -/
theorem MarksFaults.children {tree : Tree} (h : tree.MarksFaults) :
    ∀ child ∈ tree.children, child.MarksFaults := by
  intro child hchild t ht
  refine h t ?_
  rw [subtrees_eq, inner, subtreesOf_eq_flatMap]
  exact List.mem_cons_of_mem _ (List.mem_flatMap.2 ⟨child, hchild, ht⟩)

mutual

/-- There is an outermost fault if there is any. -/
theorem outermostFaults_pos_iff : (tree : Tree) →
    (0 < tree.outermostFaults ↔ tree.HoldsFault)
  | node info children => by
    rw [outermostFaults_eq, holdsFault_iff]
    cases (node info children).isFault with
    | true => exact iff_of_true Nat.one_pos (.inl rfl)
    | false =>
      rw [if_neg Bool.false_ne_true, or_iff_right Bool.false_ne_true]
      exact sum_outermostFaults_pos_iff children

theorem sum_outermostFaults_pos_iff : (trees : List Tree) →
    (0 < (trees.map outermostFaults).sum ↔ ∃ tree ∈ trees, tree.HoldsFault)
  | [] => by simp
  | tree :: rest => by
    rw [List.map_cons, List.sum_cons, Nat.add_pos_iff_pos_or_pos, outermostFaults_pos_iff tree,
      sum_outermostFaults_pos_iff rest]
    simp

end

/-! ### The walk -/

/-- The faults on a stack are counted apart. -/
theorem faultsFrom_append (stack more : List Tree) :
    faultsFrom (stack ++ more) = faultsFrom stack + faultsFrom more := by
  induction stack using faultsFrom.induct with
  | case1 => rw [List.nil_append, faultsFrom, Nat.zero_add]
  | case2 tree rest hfault ih =>
    rw [List.cons_append, faultsFrom, faultsFrom, if_pos hfault, if_pos hfault, ih, Nat.add_assoc]
  | case3 tree rest hfault herror ih =>
    rw [List.cons_append, faultsFrom, faultsFrom, if_neg hfault, if_neg hfault, if_pos herror,
      if_pos herror, ← List.append_assoc, ih]
  | case4 tree rest hfault herror ih =>
    rw [List.cons_append, faultsFrom, faultsFrom, if_neg hfault, if_neg hfault, if_neg herror,
      if_neg herror, ih]

/-- Where faults are marked none is missed. -/
theorem faultsFrom_eq_sum {stack : List Tree} (h : ∀ tree ∈ stack, tree.MarksFaults) :
    faultsFrom stack = (stack.map outermostFaults).sum := by
  induction stack using faultsFrom.induct with
  | case1 => rw [faultsFrom, List.map_nil, List.sum_nil]
  | case2 tree rest hfault ih =>
    rw [faultsFrom, if_pos hfault, ih (List.forall_mem_cons.1 h).2, List.map_cons, List.sum_cons,
      outermostFaults_eq, if_pos hfault]
  | case3 tree rest hfault herror ih =>
    obtain ⟨htree, hrest⟩ := List.forall_mem_cons.1 h
    rw [faultsFrom, if_neg hfault, if_pos herror,
      ih (List.forall_mem_append.2 ⟨htree.children, hrest⟩), List.map_append, List.sum_append,
      List.map_cons, List.sum_cons, outermostFaults_eq tree, if_neg hfault]
  | case4 tree rest hfault herror ih =>
    obtain ⟨htree, hrest⟩ := List.forall_mem_cons.1 h
    have hnone : ¬0 < tree.outermostFaults := fun hpos =>
      herror (htree.root ((outermostFaults_pos_iff tree).1 hpos))
    rw [faultsFrom, if_neg hfault, if_neg herror, ih hrest, List.map_cons, List.sum_cons,
      Nat.eq_zero_of_not_pos hnone, Nat.zero_add]

/-- Where faults are marked all outermost ones are counted. -/
theorem MarksFaults.errorCount_eq {tree : Tree} (h : tree.MarksFaults) :
    tree.errorCount = tree.outermostFaults := by
  rw [errorCount, faultsFrom_eq_sum (List.forall_mem_singleton.2 h), List.map_singleton,
    List.sum_singleton]
  split_ifs with herror
  · rfl
  · have hnone : ¬0 < tree.outermostFaults := fun hpos =>
      herror (h.root ((outermostFaults_pos_iff tree).1 hpos))
    exact (Nat.eq_zero_of_not_pos hnone).symm

/-! ### The order of children -/

mutual

/-- Two trees are the same, but for the order of children, at any depth. -/
inductive Reordered : Tree → Tree → Prop
  | node (info : NodeInfo) {children children' : List Tree} (h : ReorderedAll children children') :
      Reordered (.node info children) (.node info children')

/-- Trees side by side are the same, but for their own order and that of children. -/
inductive ReorderedAll : List Tree → List Tree → Prop
  | nil : ReorderedAll [] []
  | cons {tree tree' : Tree} {rest rest' : List Tree} (h : Reordered tree tree')
      (hrest : ReorderedAll rest rest') : ReorderedAll (tree :: rest) (tree' :: rest')
  | swap (a b : Tree) (rest : List Tree) : ReorderedAll (a :: b :: rest) (b :: a :: rest)
  | trans {trees trees' trees'' : List Tree} (h : ReorderedAll trees trees')
      (h' : ReorderedAll trees' trees'') : ReorderedAll trees trees''

end

/-- A single tree on the stack is a fault, or is searched if it is marked. -/
theorem faultsFrom_singleton (tree : Tree) :
    faultsFrom [tree] =
      if tree.isFault then 1 else if tree.info.hasError then faultsFrom tree.children else 0 := by
  have hnil : faultsFrom [] = 0 := by rw [faultsFrom]
  rw [faultsFrom, hnil, List.append_nil]

theorem faultsFrom_cons (tree : Tree) (rest : List Tree) :
    faultsFrom (tree :: rest) = faultsFrom [tree] + faultsFrom rest :=
  faultsFrom_append [tree] rest

mutual

theorem Reordered.faultsFrom_eq : {tree tree' : Tree} → Reordered tree tree' →
    faultsFrom [tree'] = faultsFrom [tree]
  | _, _, .node info h => by
    rw [faultsFrom_singleton, faultsFrom_singleton]
    simp only [Tree.children, h.faultsFrom_eq]
    rfl

theorem ReorderedAll.faultsFrom_eq : {trees trees' : List Tree} → ReorderedAll trees trees' →
    faultsFrom trees' = faultsFrom trees
  | _, _, .nil => rfl
  | _, _, .cons h hrest => by
    rw [faultsFrom_cons, h.faultsFrom_eq, hrest.faultsFrom_eq, ← faultsFrom_cons]
  | _, _, .swap a b rest => by
    rw [faultsFrom_cons b, faultsFrom_cons a rest, faultsFrom_cons a (b :: rest),
      faultsFrom_cons b rest, Nat.add_left_comm]
  | _, _, .trans h h' => h'.faultsFrom_eq.trans h.faultsFrom_eq

end

/-- The order of children makes no difference to the number of faults. -/
theorem Reordered.errorCount_eq {tree tree' : Tree} (h : tree.Reordered tree') :
    tree'.errorCount = tree.errorCount := by
  have hinfo : tree'.info = tree.info := by
    cases h
    rfl
  rw [errorCount, errorCount, hinfo, h.faultsFrom_eq]

end Tree

/-! ### Reports -/

namespace Baseline

/-- The baseline tells of the faults of a tree if there are some, and how many there are. -/
theorem syntaxErrors_mem_events_iff {parser : SourceParser} {source : Text} {u : SourceUnit}
    (h : parser.parse source = .ok u) (b : Baseline) (file : Option Text) (name path : Text)
    (count : Nat) :
    .syntaxErrors name path count ∈ (b.predict parser source file).events ↔
      0 < u.tree.errorCount ∧ name = b.name ∧ path = fileName file ∧
        count = u.tree.errorCount := by
  have hlast (trace : Trace) (emitted : Nat) :
      ApproachEvent.syntaxErrors name path count ≠
        lastEvent b.name (fileName file) trace emitted := by
    rw [lastEvent]
    cases trace.failure <;> exact fun h => by cases h
  rw [predict, h]
  simp only [predictUnit, List.mem_append, List.mem_singleton, hlast, or_false, syntaxEvents]
  split_ifs with hnone
  · simp [hnone]
  · simp [Nat.pos_of_ne_zero hnone]

/-- **Faults.** Where every node with a fault in it is marked, the number of faults is that of all
faults with no other one around them, and the order of children makes no difference to it. It is
positive if there is a fault in the tree, and then, and only then, the baseline tells of it. -/
theorem faults_reported {tree : Tree} (h : tree.MarksFaults) :
    tree.errorCount = tree.outermostFaults ∧
    (∀ tree', tree.Reordered tree' → tree'.errorCount = tree.outermostFaults) ∧
    (0 < tree.errorCount ↔ tree.HoldsFault) ∧
    ∀ (parser : SourceParser) (source : Text) (bytes : Bytes),
      parser.parse source = .ok ⟨bytes, tree⟩ →
      ∀ (b : Baseline) (file : Option Text) (name path : Text) (count : Nat),
        .syntaxErrors name path count ∈ (b.predict parser source file).events ↔
          tree.HoldsFault ∧ name = b.name ∧ path = fileName file ∧
            count = tree.outermostFaults := by
  have hcount := h.errorCount_eq
  have hpos : 0 < tree.errorCount ↔ tree.HoldsFault := by
    rw [hcount]
    exact Tree.outermostFaults_pos_iff tree
  refine ⟨hcount, fun tree' h' => h'.errorCount_eq.trans hcount, hpos, ?_⟩
  intro parser source bytes hparse b file name path count
  rw [syntaxErrors_mem_events_iff hparse, hpos, hcount]

/-- A stretch that fits no rule inside another one, and missing text below a node that is no
fault. -/
def faultyTree : Tree :=
  .node { SourceUnit.sampleInfo "program" 0 3 none with hasError := true }
    [.node { SourceUnit.sampleInfo "ERROR" 0 2 none with hasError := true }
        [.node { SourceUnit.sampleInfo "ERROR" 1 2 none with hasError := true } []],
      .node { SourceUnit.sampleInfo "expression_statement" 3 3 none with hasError := true }
        [.node { SourceUnit.sampleInfo "identifier" 3 3 none with
          hasError := true, isMissing := true } []]]

/-- Two faults are counted, whichever comes first, and told of. -/
theorem faults_reported_faultyTree :
    faultyTree.MarksFaults ∧ faultyTree.errorCount = 2 ∧
    (Tree.node faultyTree.info faultyTree.children.reverse).errorCount = 2 ∧
    .syntaxErrors defaultName unknownFile 2 ∈
      (eager.predict ⟨.ok (), fun _ => .ok ⟨[], faultyTree⟩⟩ [] none).events := by
  have hmarks : faultyTree.MarksFaults := by decide
  obtain ⟨hcount, horder, hpos, hevents⟩ := faults_reported hmarks
  have htwo : faultyTree.outermostFaults = 2 := by decide
  rw [htwo] at hcount horder hevents
  refine ⟨hmarks, hcount, horder _ (.node _ (.swap _ _ _)), ?_⟩
  exact (hevents _ _ _ rfl eager none _ _ _).2 ⟨hpos.1 (by omega), rfl, rfl, rfl⟩

end Baseline

end TypeBench
