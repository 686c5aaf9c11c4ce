import Mathlib.Data.List.Basic
import TypeBench.Proofs.Occurrence.Recursion

/-!
# Trees that read alike

A map of trees is faithful if it keeps what every node says of itself, but perhaps whether its place
can be read, and takes the children of every node along, but perhaps those in a stretch that fits no
rule. Nothing that the bench reads of a source unit depends on the rest: the named nodes and the
faults, the usages, the nodes that a walk reaches, and their names, scopes and surroundings are the
same after such a map.

## Main definitions

* `NodeInfo.mended`: what a node says of itself, apart from whether its place can be read.
* `Tree.IsFaithful`: maps of trees that keep what is read.
* `Node.map`, `SourceUnit.map`: nodes in a mapped tree, and a source unit with such a tree.
* `Node.IsOutside`: a node that no stretch without a rule holds.

## Main results

* `SourceUnit.usages_map`, `Tree.errorCount_map`, `Tree.namedNodes_map`: usages, faults and named
  nodes of a mapped tree.
* `SourceUnit.reached_map`, `SourceUnit.isOutside_of_mem_reached`: the nodes that a walk reaches.
* `SourceUnit.ownOccurrence?_map`: a node of a mapped tree is the same occurrence.
* `SourceUnit.trace_map`: so is the walk, if the map keeps all that nodes say of themselves.
-/

namespace TypeBench

/-- The same words of a node about itself, with a readable place. -/
def NodeInfo.mended (info : NodeInfo) : NodeInfo := { info with unreadable := none }

/-- A map of trees that keeps what is read of them: what every node says of itself, but perhaps
whether its place can be read, and the children of every node, but perhaps those in a stretch that
fits no rule. -/
structure Tree.IsFaithful (f : Tree → Tree) : Prop where
  info_mended (tree : Tree) : (f tree).info.mended = tree.info.mended
  children_map {tree : Tree} (h : tree.isError = false) : (f tree).children = tree.children.map f

/-- A node with its surroundings in a mapped tree. -/
def Node.map (f : Tree → Tree) (n : Node) : Node := ⟨f n.tree, n.ancestors.map f⟩

/-- A source unit with a mapped tree. -/
def SourceUnit.map (f : Tree → Tree) (u : SourceUnit) : SourceUnit := { u with tree := f u.tree }

/-- Neither a node nor any tree around it is a stretch that fits no rule. -/
def Node.IsOutside (n : Node) : Prop := ∀ tree ∈ n.tree :: n.ancestors, tree.isError = false

/-! ### Trees -/

namespace Tree.IsFaithful

variable {f : Tree → Tree} (hf : IsFaithful f)

include hf

/-- What is read of a node is kept, unless it is whether the place can be read. -/
theorem read_map {α : Type} (read : NodeInfo → α) (h : ∀ info, read info.mended = read info)
    (tree : Tree) : read (f tree).info = read tree.info := by
  rw [← h, hf.info_mended, h]

theorem kind_map (tree : Tree) : (f tree).info.kind = tree.info.kind :=
  hf.read_map NodeInfo.kind (fun _ => rfl) tree

theorem isNamed_map (tree : Tree) : (f tree).info.isNamed = tree.info.isNamed :=
  hf.read_map NodeInfo.isNamed (fun _ => rfl) tree

theorem isMissing_map (tree : Tree) : (f tree).info.isMissing = tree.info.isMissing :=
  hf.read_map NodeInfo.isMissing (fun _ => rfl) tree

theorem hasError_map (tree : Tree) : (f tree).info.hasError = tree.info.hasError :=
  hf.read_map NodeInfo.hasError (fun _ => rfl) tree

theorem start_map (tree : Tree) : (f tree).info.start = tree.info.start :=
  hf.read_map NodeInfo.start (fun _ => rfl) tree

theorem stop_map (tree : Tree) : (f tree).info.stop = tree.info.stop :=
  hf.read_map NodeInfo.stop (fun _ => rfl) tree

theorem field_map (tree : Tree) : (f tree).info.field = tree.info.field :=
  hf.read_map NodeInfo.field (fun _ => rfl) tree

theorem isError_map (tree : Tree) : (f tree).isError = tree.isError := by
  rw [isError, isError, hf.kind_map]

theorem isFault_map (tree : Tree) : (f tree).isFault = tree.isFault := by
  rw [isFault, isFault, hf.isError_map, hf.isMissing_map]

theorem sameNode_map (a b : Tree) : (f a).sameNode (f b) = a.sameNode b := by
  simp only [sameNode, hf.kind_map, hf.start_map, hf.stop_map]

theorem child?_map {tree : Tree} (h : tree.isError = false) (field : Text) :
    (f tree).child? field = (tree.child? field).map f := by
  rw [child?, hf.children_map h, List.find?_map]
  simp only [Function.comp_def, hf.field_map]
  rfl

theorem isChild_map {parent : Tree} (h : parent.isError = false) (field : Text) (tree : Tree) :
    (f parent).isChild field (f tree) = parent.isChild field tree := by
  rw [isChild, isChild, hf.child?_map h]
  cases parent.child? field with
  | none => rfl
  | some child => exact hf.sameNode_map child tree

/-- The faults on a stack. Nothing is looked for inside a fault, so nothing inside a stretch that
fits no rule. -/
theorem faultsFrom_map (stack : List Tree) : faultsFrom (stack.map f) = faultsFrom stack := by
  induction stack using faultsFrom.induct with
  | case1 => rfl
  | case2 tree rest hfault ih =>
    rw [List.map_cons, faultsFrom, faultsFrom, hf.isFault_map, if_pos hfault, if_pos hfault, ih]
  | case3 tree rest hfault herror ih =>
    have hfits : tree.isError = false := by
      cases h : tree.isError with
      | false => rfl
      | true => exact absurd (by rw [isFault, h, Bool.true_or]) hfault
    rw [List.map_cons, faultsFrom, faultsFrom, hf.isFault_map, hf.hasError_map, if_neg hfault,
      if_neg hfault, if_pos herror, if_pos herror, hf.children_map hfits, ← List.map_append, ih]
  | case4 tree rest hfault herror ih =>
    rw [List.map_cons, faultsFrom, faultsFrom, hf.isFault_map, hf.hasError_map, if_neg hfault,
      if_neg hfault, if_neg herror, if_neg herror, ih]

/-- A mapped tree has as many faults as the tree. -/
theorem errorCount_map (tree : Tree) : (f tree).errorCount = tree.errorCount := by
  have hfaults : faultsFrom [f tree] = faultsFrom [tree] := hf.faultsFrom_map [tree]
  rw [errorCount, errorCount, hf.hasError_map, hfaults]

end Tree.IsFaithful

/-! ### Nodes -/

namespace Node

variable {f : Tree → Tree}

theorem parent?_map (n : Node) : (n.map f).parent? = n.parent?.map (map f) := by
  obtain ⟨tree, outer⟩ := n
  cases outer <;> rfl

theorem IsOutside.isError_tree {n : Node} (h : n.IsOutside) : n.tree.isError = false :=
  h n.tree List.mem_cons_self

theorem IsOutside.parent {n parent : Node} (h : n.IsOutside) (hparent : n.parent? = some parent) :
    parent.IsOutside := by
  obtain ⟨tree, outer⟩ := n
  cases outer with
  | nil => cases hparent
  | cons p outer =>
    obtain rfl := Option.some.inj hparent
    exact fun tree htree => h tree (List.mem_cons_of_mem _ htree)

/-- The trees around a child of a node outside are no stretches that fit no rule. -/
theorem IsOutside.ancestors_of_mem_children {n : Node} (h : n.IsOutside) :
    ∀ child ∈ n.children, ∀ tree ∈ child.ancestors, tree.isError = false := by
  intro child hchild
  obtain ⟨tree, -, rfl⟩ := List.mem_map.1 hchild
  exact h

variable (hf : Tree.IsFaithful f)

include hf

theorem kind_map (n : Node) : (n.map f).kind = n.kind := hf.kind_map n.tree

theorem children_map {n : Node} (h : n.tree.isError = false) :
    (n.map f).children = n.children.map (map f) := by
  have hchildren : (n.map f).tree.children = n.tree.children.map f := hf.children_map h
  rw [children, children, hchildren, List.map_map, List.map_map]
  rfl

theorem isClassMethod_map (n : Node) : (n.map f).isClassMethod = n.isClassMethod := by
  simp only [isClassMethod, kind_map hf, parent?_map, Option.any_map]

/-- The named nodes on a stack, none of which is looked for in a stretch that fits no rule. -/
theorem namedFrom_map (stack : List Node) :
    namedFrom (stack.map (map f)) = (namedFrom stack).map (map f) := by
  have hnamed (n : Node) : (n.map f).tree.info.isNamed = n.tree.info.isNamed :=
    hf.isNamed_map n.tree
  have herror (n : Node) : (n.map f).tree.isError = n.tree.isError := hf.isError_map n.tree
  induction stack using namedFrom.induct with
  | case1 => rw [List.map_nil, namedFrom, List.map_nil]
  | case2 n rest hskip ih =>
    rw [List.map_cons, namedFrom, namedFrom, herror, if_pos hskip, if_pos hskip, ih]
  | case3 n rest hskip hname ih =>
    rw [List.map_cons, namedFrom, namedFrom, herror, hnamed, if_neg hskip, if_neg hskip,
      if_pos hname, if_pos hname, children_map hf (Bool.eq_false_iff.2 hskip),
      ← List.map_append, ih, List.map_cons]
  | case4 n rest hskip hname ih =>
    rw [List.map_cons, namedFrom, namedFrom, herror, hnamed, if_neg hskip, if_neg hskip,
      if_neg hname, if_neg hname, children_map hf (Bool.eq_false_iff.2 hskip),
      ← List.map_append, ih]

end Node

namespace Tree

/-- The named nodes of a mapped tree are those of the tree. -/
theorem namedNodes_map {f : Tree → Tree} (hf : IsFaithful f) (tree : Tree) :
    (f tree).namedNodes = tree.namedNodes.map (Node.map f) :=
  Node.namedFrom_map hf [Node.ofTree tree]

/-- Named nodes are not looked for in a stretch that fits no rule. -/
theorem isOutside_of_mem_namedFrom {stack : List Node}
    (h : ∀ n ∈ stack, ∀ tree ∈ n.ancestors, tree.isError = false) :
    ∀ n ∈ Node.namedFrom stack, n.IsOutside := by
  induction stack using Node.namedFrom.induct with
  | case1 => simp [Node.namedFrom]
  | case2 n rest herror ih =>
    rw [Node.namedFrom, if_pos herror]
    exact ih (List.forall_mem_cons.1 h).2
  | case3 n rest herror hname ih =>
    obtain ⟨hn, hrest⟩ := List.forall_mem_cons.1 h
    have hinside : n.IsOutside := List.forall_mem_cons.2 ⟨Bool.eq_false_iff.2 herror, hn⟩
    rw [Node.namedFrom, if_neg herror, if_pos hname]
    exact List.forall_mem_cons.2 ⟨hinside, ih (List.forall_mem_append.2
      ⟨hinside.ancestors_of_mem_children, hrest⟩)⟩
  | case4 n rest herror hname ih =>
    obtain ⟨hn, hrest⟩ := List.forall_mem_cons.1 h
    have hinside : n.IsOutside := List.forall_mem_cons.2 ⟨Bool.eq_false_iff.2 herror, hn⟩
    rw [Node.namedFrom, if_neg herror, if_neg hname]
    exact ih (List.forall_mem_append.2 ⟨hinside.ancestors_of_mem_children, hrest⟩)

mutual

/-- A walk reaches no node in a stretch that fits no rule. -/
theorem isOutside_of_mem_gather {outer : List Tree} (h : ∀ tree ∈ outer, tree.isError = false) :
    (tree : Tree) → ∀ n ∈ tree.gather (fun n => [n]) outer, n.IsOutside
  | node info children => by
    cases hskip : SourceUnit.isSkipped ⟨node info children, outer⟩ with
    | true =>
      rw [gather_of_isSkipped _ hskip]
      exact nofun
    | false =>
      have herror : (node info children).isError = false := (Bool.or_eq_false_iff.1 hskip).1
      have hinside : ∀ tree ∈ node info children :: outer, tree.isError = false :=
        List.forall_mem_cons.2 ⟨herror, h⟩
      rw [gather_of_not_isSkipped _ hskip, List.singleton_append]
      exact List.forall_mem_cons.2 ⟨hinside, isOutside_of_mem_gatherAll hinside children⟩

theorem isOutside_of_mem_gatherAll {outer : List Tree} (h : ∀ tree ∈ outer, tree.isError = false) :
    (trees : List Tree) → ∀ n ∈ gatherAll (fun n => [n]) outer trees, n.IsOutside
  | [] => by
    rw [gatherAll]
    exact nofun
  | tree :: rest => by
    rw [gatherAll]
    exact List.forall_mem_append.2
      ⟨isOutside_of_mem_gather h tree, isOutside_of_mem_gatherAll h rest⟩

end

end Tree

namespace Tree.IsFaithful

variable {f : Tree → Tree}

theorem isSkipped_map (hf : IsFaithful f) (n : Node) :
    SourceUnit.isSkipped (n.map f) = SourceUnit.isSkipped n := by
  have herror : (n.map f).tree.isError = n.tree.isError := hf.isError_map n.tree
  have hnamed : (n.map f).tree.info.isNamed = n.tree.info.isNamed := hf.isNamed_map n.tree
  rw [SourceUnit.isSkipped, herror, hnamed]
  rfl

mutual

theorem gather_map (hf : IsFaithful f) (outer : List Tree) : (tree : Tree) →
    (f tree).gather (fun n => [n]) (outer.map f) =
      (tree.gather (fun n => [n]) outer).map (Node.map f)
  | node info children => by
    have hskip : SourceUnit.isSkipped ⟨f (node info children), outer.map f⟩ =
        SourceUnit.isSkipped ⟨node info children, outer⟩ :=
      hf.isSkipped_map ⟨node info children, outer⟩
    cases h : SourceUnit.isSkipped ⟨node info children, outer⟩ with
    | true =>
      rw [gather_of_isSkipped _ h, gather_of_isSkipped _ (hskip.trans h), List.map_nil]
    | false =>
      have herror : (node info children).isError = false := (Bool.or_eq_false_iff.1 h).1
      rw [gather_of_not_isSkipped _ h, gather_of_not_isSkipped _ (hskip.trans h),
        hf.children_map herror, List.map_append]
      exact congrArg _ (gatherAll_map hf (node info children :: outer) children)

theorem gatherAll_map (hf : IsFaithful f) (outer : List Tree) : (trees : List Tree) →
    gatherAll (fun n => [n]) (outer.map f) (trees.map f) =
      (gatherAll (fun n => [n]) outer trees).map (Node.map f)
  | [] => by rw [List.map_nil, gatherAll, gatherAll, List.map_nil]
  | tree :: rest => by
    rw [List.map_cons, gatherAll, gatherAll, gather_map hf outer tree,
      gatherAll_map hf outer rest, List.map_append]

end

end Tree.IsFaithful

/-! ### What is read of a node -/

namespace SourceUnit

variable {f : Tree → Tree} (u : SourceUnit)

theorem isOutside_of_mem_namedNodes : ∀ n ∈ u.tree.namedNodes, n.IsOutside :=
  Tree.isOutside_of_mem_namedFrom
    (List.forall_mem_singleton.2 fun _ htree => absurd htree List.not_mem_nil)

theorem isOutside_of_mem_reached : ∀ n ∈ u.reached, n.IsOutside :=
  Tree.isOutside_of_mem_gather (fun _ htree => absurd htree List.not_mem_nil) u.tree

variable (hf : Tree.IsFaithful f)

include hf

theorem text_map (tree : Tree) : (u.map f).text (f tree) = u.text tree := by
  rw [text, hf.start_map, hf.stop_map]
  rfl

theorem scopeName_map {tree : Tree} (h : tree.isError = false) :
    (u.map f).scopeName (f tree) = u.scopeName tree := by
  rw [scopeName, scopeName, hf.child?_map h]
  cases tree.child? "name" with
  | none => rfl
  | some name => simp only [Option.map_some, hf.kind_map, u.text_map hf]

theorem operator?_map {tree : Tree} (h : tree.isError = false) :
    (u.map f).operator? (f tree) = u.operator? tree := by
  rw [operator?, operator?, hf.child?_map h, Option.map_map]
  simp only [Function.comp_def, u.text_map hf]

/-! ### Scopes -/

theorem opening?_map {n : Node} (h : n.tree.isError = false) :
    (u.map f).opening? (n.map f) = u.opening? n := by
  have hname : (u.map f).scopeName (n.map f).tree = u.scopeName n.tree := u.scopeName_map hf h
  simp only [opening?, Node.kind_map hf, Node.isClassMethod_map hf, hname]

theorem scopesAround_map {outer : List Tree} (h : ∀ tree ∈ outer, tree.isError = false) :
    (u.map f).scopesAround (outer.map f) = u.scopesAround outer := by
  induction outer with
  | nil => rfl
  | cons tree outer ih =>
    obtain ⟨htree, houter⟩ := List.forall_mem_cons.1 h
    have hopening : (u.map f).opening? ⟨f tree, outer.map f⟩ = u.opening? ⟨tree, outer⟩ :=
      u.opening?_map hf (n := ⟨tree, outer⟩) htree
    rw [List.map_cons, scopesAround, scopesAround, scopesInside, scopesInside, hopening, ih houter]

theorem pathOf_map {outer : List Tree} (h : ∀ tree ∈ outer, tree.isError = false) :
    (u.map f).pathOf (outer.map f) = u.pathOf outer := by
  rw [← current_scopesAround, ← current_scopesAround, u.scopesAround_map hf h]

/-! ### Occurrences -/

theorem isDeclarationName_map {n : Node} (h : n.IsOutside) :
    isDeclarationName (n.map f) = isDeclarationName n := by
  rw [isDeclarationName, isDeclarationName, Node.parent?_map]
  cases hparent : n.parent? with
  | none => rfl
  | some parent =>
    simp only [Option.map_some, Option.any_some, Node.kind_map hf]
    exact congrArg _ (hf.isChild_map (h.parent hparent).isError_tree "name" n.tree)

theorem bearsValue_map {n : Node} (h : n.IsOutside) :
    (u.map f).bearsValue (n.map f) = u.bearsValue n := by
  have htext : (u.map f).text (n.map f).tree = u.text n.tree := u.text_map hf n.tree
  have hmissing : (n.map f).tree.info.isMissing = n.tree.info.isMissing := hf.isMissing_map n.tree
  rw [bearsValue, isDeclarationName_map hf h, Node.kind_map hf, htext, hmissing]
  rfl

theorem ofParent_map (parent? : Option Node) :
    SyntacticContext.ofParent (parent?.map (Node.map f)) = SyntacticContext.ofParent parent? := by
  cases parent? with
  | none => rfl
  | some parent =>
    simp only [Option.map_some, SyntacticContext.ofParent, SyntacticContext.isMethodParameters,
      SyntacticContext.isCallArguments, Node.kind_map hf, Node.parent?_map, Option.any_map,
      Node.isClassMethod_map hf]
    rfl

theorem occurrenceAt_map (usages : UsageIndex) (scope : Text) {n : Node} (h : n.IsOutside)
    (position : SourcePosition) :
    (u.map f).occurrenceAt usages scope (n.map f) position =
      u.occurrenceAt usages scope n position := by
  have htext : (u.map f).text (n.map f).tree = u.text n.tree := u.text_map hf n.tree
  have hkind : (n.map f).parent?.map Node.kind = n.parent?.map Node.kind := by
    rw [Node.parent?_map, Option.map_map]
    simp only [Function.comp_def, Node.kind_map hf]
  have hoperator : ((n.map f).parent?.bind fun parent => (u.map f).operator? parent.tree) =
      n.parent?.bind fun parent => u.operator? parent.tree := by
    rw [Node.parent?_map]
    cases hparent : n.parent? with
    | none => rfl
    | some parent => exact u.operator?_map hf (h.parent hparent).isError_tree
  rw [occurrenceAt, htext, hkind, hoperator, Node.parent?_map, ofParent_map hf]
  rfl

/-! ### Usages -/

theorem property?_map {member : Tree} (h : member.isError = false) :
    (u.map f).property? (f member) = u.property? member := by
  rw [property?, property?, hf.child?_map h, Option.bind_map]
  simp only [Function.comp_def, hf.kind_map, u.text_map hf]

omit u in
/-- The arguments of a call lie in a node of their own kind, so not in a stretch that fits no
rule. -/
theorem arguments?_map {call : Tree} (h : call.isError = false) :
    arguments? (f call) = arguments? call := by
  rw [arguments?, arguments?, hf.child?_map h, Option.bind_map]
  congr 1
  funext arguments
  simp only [Function.comp_apply, hf.kind_map]
  split_ifs with hkind
  · have herror : arguments.isError = false := by
      rw [Tree.isError, hkind]
      rfl
    rw [hf.children_map herror, List.countP_map]
    simp only [Function.comp_def, hf.isNamed_map, hf.kind_map]
  · rfl

theorem usage?_map {n : Node} (h : n.IsOutside) : (u.map f).usage? (n.map f) = u.usage? n := by
  rw [usage?, usage?, Node.parent?_map]
  cases hparent : n.parent? with
  | none => rfl
  | some parent =>
    have herror := (h.parent hparent).isError_tree
    have hchild (field : Text) : (parent.map f).tree.isChild field (n.map f).tree =
        parent.tree.isChild field n.tree := hf.isChild_map herror field n.tree
    have hproperty : (u.map f).property? (parent.map f).tree = u.property? parent.tree :=
      u.property?_map hf herror
    have harguments : arguments? (parent.map f).tree = arguments? parent.tree :=
      arguments?_map hf herror
    simp only [Option.map_some, Option.bind_some, Node.kind_map hf, hchild, hproperty, harguments]

/-- The usages of a mapped tree are those of the tree. -/
theorem usages_map : UsageIndex.ofUnit (u.map f) = UsageIndex.ofUnit u := by
  have hnodes : (u.map f).tree.namedNodes = u.tree.namedNodes.map (Node.map f) :=
    Tree.namedNodes_map hf u.tree
  rw [UsageIndex.ofUnit, hnodes, List.foldl_map]
  refine List.foldl_ext _ _ _ fun index n hn => ?_
  have htext : (u.map f).text (n.map f).tree = u.text n.tree := u.text_map hf n.tree
  rw [UsageIndex.record, Node.kind_map hf, u.usage?_map hf (u.isOutside_of_mem_namedNodes n hn),
    htext]
  rfl

/-! ### Nodes that a walk reaches -/

/-- A walk reaches the same nodes of a mapped tree. -/
theorem reached_map : (u.map f).reached = u.reached.map (Node.map f) := hf.gather_map [] u.tree

/-- A node of a mapped tree is the same occurrence. -/
theorem ownOccurrence?_map (usages : UsageIndex) {n : Node} (h : n.IsOutside) :
    (u.map f).ownOccurrence? usages (n.map f) = u.ownOccurrence? usages n := by
  have hpath : (u.map f).pathOf (n.map f).ancestors = u.pathOf n.ancestors :=
    u.pathOf_map hf fun tree htree => h tree (List.mem_cons_of_mem _ htree)
  have hplace : (u.map f).positionAt (n.map f).tree.info.start =
      u.positionAt n.tree.info.start := by
    rw [show (n.map f).tree.info.start = n.tree.info.start from hf.start_map n.tree]
    rfl
  rw [ownOccurrence?, ownOccurrence?, u.bearsValue_map hf h, hpath, hplace,
    u.occurrenceAt_map hf usages _ h]

/-! ### Walks -/

/-- A walk over a mapped tree, whose places can be read if and only if they could before, is the
same walk. -/
theorem readThrough_map (hinfo : ∀ tree, (f tree).info = tree.info) (usages : UsageIndex)
    {nodes : List Node} (h : ∀ n ∈ nodes, n.IsOutside) (after : Trace) :
    (u.map f).readThrough usages (nodes.map (Node.map f)) after =
      u.readThrough usages nodes after := by
  induction nodes with
  | nil => rfl
  | cons n rest ih =>
    obtain ⟨hn, hrest⟩ := List.forall_mem_cons.1 h
    have houter : ∀ tree ∈ n.ancestors, tree.isError = false :=
      fun tree htree => hn tree (List.mem_cons_of_mem _ htree)
    have hpath : (u.map f).pathOf (n.map f).ancestors = u.pathOf n.ancestors :=
      u.pathOf_map hf houter
    have hscopes : (u.map f).scopesAround (n.map f).ancestors = u.scopesAround n.ancestors :=
      u.scopesAround_map hf houter
    have hplace : (u.map f).position (n.map f).tree = u.position n.tree := by
      rw [position, show (n.map f).tree.info = n.tree.info from hinfo n.tree]
      rfl
    simp only [List.map_cons, readThrough, occurrence?, u.bearsValue_map hf hn, hplace,
      u.occurrenceAt_map hf usages _ hn, hpath, hscopes, ih hrest]

theorem trace_map (hinfo : ∀ tree, (f tree).info = tree.info) : (u.map f).trace = u.trace := by
  rw [trace_eq_readThrough, trace_eq_readThrough, u.usages_map hf, u.reached_map hf,
    u.readThrough_map hf hinfo _ u.isOutside_of_mem_reached]

end SourceUnit

end TypeBench
