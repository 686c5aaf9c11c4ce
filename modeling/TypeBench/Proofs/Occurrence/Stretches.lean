import Mathlib.Data.List.Forall2
import TypeBench.Approach.Baseline
import TypeBench.Proofs.Occurrence.Faithful

/-!
# Stretches that fit no rule

A stretch of the source that fits no rule of the grammar is a node with a span and marks of its own.
What lies below it has no effect: with any other children there, the named nodes and the faults, the
usages of identifiers and the walk are the same, and so is what the baseline predicts. A place that
cannot be read is never met inside a stretch.

Trees that differ there alone are told by a common form, in which the stretches are empty. Emptying
them is a faithful map, so what is read of a tree is what is read of its common form.

## Main definitions

* `Tree.Refilled`: trees that differ in the contents of stretches alone.
* `Tree.pruned`: a tree with empty stretches.

## Main results

* `Tree.refilled_iff`: trees differ in stretches alone if they are the same with these empty.
* `Tree.isFaithful_pruned`: emptying stretches is faithful.
* `SourceUnit.exists_of_failure_trace`: where a walk fails.
* `SourceUnit.reads_alike_of_refilled`: what lies in stretches has no effect.
-/

namespace TypeBench

namespace Tree

/-! ### Contents of stretches -/

mutual

/-- Two trees are the same, but for what lies in stretches that fit no rule. A stretch itself keeps
its span and its marks. -/
inductive Refilled : Tree → Tree → Prop
  | stretch {info : NodeInfo} (h : info.kind = NodeKind.error) (children children' : List Tree) :
      Refilled (.node info children) (.node info children')
  | node (info : NodeInfo) {children children' : List Tree} (h : RefilledAll children children') :
      Refilled (.node info children) (.node info children')

/-- Trees side by side are the same, but for what lies in stretches. -/
inductive RefilledAll : List Tree → List Tree → Prop
  | nil : RefilledAll [] []
  | cons {tree tree' : Tree} {rest rest' : List Tree} (h : Refilled tree tree')
      (hrest : RefilledAll rest rest') : RefilledAll (tree :: rest) (tree' :: rest')

end

mutual

/-- The same tree, with nothing in its stretches. -/
def pruned : Tree → Tree
  | .node info children =>
    .node info (if info.kind = NodeKind.error then [] else prunedAll children)

/-- The same trees side by side, with nothing in their stretches. -/
def prunedAll : List Tree → List Tree
  | [] => []
  | tree :: rest => pruned tree :: prunedAll rest

end

theorem prunedAll_eq_map (trees : List Tree) : prunedAll trees = trees.map pruned := by
  induction trees with
  | nil => rw [prunedAll, List.map_nil]
  | cons tree rest ih => rw [prunedAll, ih, List.map_cons]

theorem info_pruned (tree : Tree) : tree.pruned.info = tree.info := by
  cases tree with
  | node => rw [pruned]; rfl

/-- Emptying stretches is faithful. -/
theorem isFaithful_pruned : IsFaithful pruned where
  info_mended tree := congrArg NodeInfo.mended tree.info_pruned
  children_map {tree} h := by
    cases tree with
    | node info children =>
      have hkind : ¬info.kind = NodeKind.error := of_decide_eq_false h
      rw [pruned, if_neg hkind, prunedAll_eq_map]
      rfl

mutual

theorem Refilled.pruned_eq : {tree tree' : Tree} → Refilled tree tree' →
    tree.pruned = tree'.pruned
  | _, _, .stretch h children children' => by rw [pruned, pruned, if_pos h, if_pos h]
  | _, _, .node info h => by rw [pruned, pruned, h.prunedAll_eq]

theorem RefilledAll.prunedAll_eq : {trees trees' : List Tree} → RefilledAll trees trees' →
    prunedAll trees = prunedAll trees'
  | _, _, .nil => rfl
  | _, _, .cons h hrest => by rw [prunedAll, prunedAll, h.pruned_eq, hrest.prunedAll_eq]

end

mutual

theorem refilled_of_pruned_eq : (tree tree' : Tree) → tree.pruned = tree'.pruned →
    Refilled tree tree'
  | .node info children, .node info' children', h => by
    rw [pruned, pruned, node.injEq] at h
    obtain ⟨rfl, hchildren⟩ := h
    by_cases hkind : info.kind = NodeKind.error
    · exact .stretch hkind children children'
    · rw [if_neg hkind, if_neg hkind] at hchildren
      exact .node info (refilledAll_of_prunedAll_eq children children' hchildren)

theorem refilledAll_of_prunedAll_eq : (trees trees' : List Tree) →
    prunedAll trees = prunedAll trees' → RefilledAll trees trees'
  | [], [], _ => .nil
  | [], _ :: _, h => by simp [prunedAll] at h
  | _ :: _, [], h => by simp [prunedAll] at h
  | tree :: rest, tree' :: rest', h => by
    rw [prunedAll, prunedAll, List.cons.injEq] at h
    exact .cons (refilled_of_pruned_eq tree tree' h.1) (refilledAll_of_prunedAll_eq rest rest' h.2)

end

/-- Trees differ in stretches alone if and only if they are the same with empty stretches. -/
theorem refilled_iff {tree tree' : Tree} : Refilled tree tree' ↔ tree.pruned = tree'.pruned :=
  ⟨Refilled.pruned_eq, refilled_of_pruned_eq tree tree'⟩

end Tree

/-- Two nodes and the trees around them are the same, but for what lies in stretches. -/
structure Node.Refilled (n n' : Node) : Prop where
  tree : n.tree.Refilled n'.tree
  ancestors : List.Forall₂ Tree.Refilled n.ancestors n'.ancestors

/-- Lists with the same image correspond item by item. -/
theorem forall₂_of_map_eq_map {α β : Type} {f : α → β} {as bs : List α}
    (h : as.map f = bs.map f) : List.Forall₂ (fun a b => f a = f b) as bs := by
  have himage : List.Forall₂ Eq (as.map f) (bs.map f) := by rwa [List.forall₂_eq_eq_eq]
  exact List.forall₂_map_right_iff.1 (List.forall₂_map_left_iff.1 himage)

theorem Node.refilled_of_map_pruned_eq {n n' : Node} (h : n.map Tree.pruned = n'.map Tree.pruned) :
    n.Refilled n' := by
  obtain ⟨htree, houter⟩ := Node.mk.inj h
  exact ⟨Tree.refilled_iff.2 htree,
    (forall₂_of_map_eq_map houter).imp fun _ _ => Tree.refilled_iff.2⟩

namespace SourceUnit

variable {u u' : SourceUnit}

/-! ### Where a walk fails -/

theorem exists_of_failure_readThrough {usages : UsageIndex} {nodes : List Node} {after : Trace}
    {reason : Text} (h : (u.readThrough usages nodes after).failure = some reason) :
    (∃ n ∈ nodes, n.tree.info.unreadable = some reason) ∨ after.failure = some reason := by
  induction nodes with
  | nil => exact .inr h
  | cons n rest ih =>
    rw [readThrough] at h
    cases hread : u.occurrence? usages (u.pathOf n.ancestors) n with
    | ok found =>
      rw [hread] at h
      refine (ih h).imp_left ?_
      rintro ⟨m, hm, hreason⟩
      exact ⟨m, List.mem_cons_of_mem _ hm, hreason⟩
    | error reason' =>
      rw [hread] at h
      obtain rfl : reason' = reason := Option.some.inj h
      refine .inl ⟨n, List.mem_cons_self, ?_⟩
      rw [occurrence?] at hread
      split at hread
      · rw [position] at hread
        split at hread
        · next hplace => rw [hplace, Except.error.inj hread]
        · cases hread
      · cases hread

/-- A walk fails at a node outside of all stretches. -/
theorem exists_of_failure_trace {reason : Text} (h : u.trace.failure = some reason) :
    ∃ n ∈ u.reached, n.IsOutside ∧ n.tree.info.unreadable = some reason := by
  rw [trace_eq_readThrough] at h
  obtain ⟨n, hn, hreason⟩ := (exists_of_failure_readThrough h).resolve_right nofun
  exact ⟨n, hn, u.isOutside_of_mem_reached n hn, hreason⟩

/-! ### Source units with other contents of stretches -/

theorem map_pruned_eq (hbytes : u'.bytes = u.bytes) (h : u.tree.Refilled u'.tree) :
    u'.map Tree.pruned = u.map Tree.pruned := by
  rw [map, map, hbytes, h.pruned_eq]

theorem trace_eq_of_refilled (hbytes : u'.bytes = u.bytes) (h : u.tree.Refilled u'.tree) :
    u'.trace = u.trace := by
  rw [← u'.trace_map Tree.isFaithful_pruned Tree.info_pruned, map_pruned_eq hbytes h,
    u.trace_map Tree.isFaithful_pruned Tree.info_pruned]

theorem usages_eq_of_refilled (hbytes : u'.bytes = u.bytes) (h : u.tree.Refilled u'.tree) :
    UsageIndex.ofUnit u' = UsageIndex.ofUnit u := by
  rw [← u'.usages_map Tree.isFaithful_pruned, map_pruned_eq hbytes h,
    u.usages_map Tree.isFaithful_pruned]

theorem errorCount_eq_of_refilled {tree tree' : Tree} (h : tree.Refilled tree') :
    tree'.errorCount = tree.errorCount := by
  rw [← Tree.isFaithful_pruned.errorCount_map tree', ← h.pruned_eq,
    Tree.isFaithful_pruned.errorCount_map tree]

theorem namedNodes_refilled {tree tree' : Tree} (h : tree.Refilled tree') :
    List.Forall₂ Node.Refilled tree.namedNodes tree'.namedNodes := by
  have hnodes : tree.namedNodes.map (Node.map Tree.pruned) =
      tree'.namedNodes.map (Node.map Tree.pruned) := by
    rw [← Tree.namedNodes_map Tree.isFaithful_pruned, ← Tree.namedNodes_map Tree.isFaithful_pruned,
      h.pruned_eq]
  exact (forall₂_of_map_eq_map hnodes).imp fun _ _ => Node.refilled_of_map_pruned_eq

/-- **Stretches that fit no rule.** With other contents of such stretches, and the same source, a
walk is the same up to its end or its failure; so are the usages, the named nodes but for what lies
in stretches below them, the number of faults, and all that a baseline answers. A walk fails at a
node outside of all stretches. -/
theorem reads_alike_of_refilled (hbytes : u'.bytes = u.bytes) (h : u.tree.Refilled u'.tree) :
    u'.trace = u.trace ∧
    UsageIndex.ofUnit u' = UsageIndex.ofUnit u ∧
    List.Forall₂ Node.Refilled u.tree.namedNodes u'.tree.namedNodes ∧
    u'.tree.errorCount = u.tree.errorCount ∧
    (∀ (parser parser' : SourceParser) (source : Text) (file : Option Text) (b : Baseline),
      parser.parse source = .ok u → parser'.parse source = .ok u' →
        b.predict parser' source file = b.predict parser source file) ∧
    ∀ reason, u.trace.failure = some reason →
      ∃ n ∈ u.reached, n.IsOutside ∧ n.tree.info.unreadable = some reason := by
  have htrace := trace_eq_of_refilled hbytes h
  have hfaults := errorCount_eq_of_refilled h
  refine ⟨htrace, usages_eq_of_refilled hbytes h, namedNodes_refilled h, hfaults, ?_,
    fun reason => exists_of_failure_trace⟩
  intro parser parser' source file b hparse hparse'
  have hunit (name : Text) : b.predictUnit name u' = b.predictUnit name u := by
    simp only [Baseline.predictUnit, Baseline.syntaxEvents, htrace, hfaults]
  simp only [Baseline.predict, hparse, hparse', hunit]

/-- The source `a;#b` with a stretch that fits no rule and holds some trees. -/
def strayStretch (inside : List Tree) : SourceUnit where
  bytes := [97, 59, 35, 98]
  tree := .node { sampleInfo "program" 0 4 none with hasError := true }
    [.node (sampleInfo "identifier" 0 1 none) [],
      .node { sampleInfo "ERROR" 2 4 none with hasError := true } inside]

/-- A call of `a`, at a place that cannot be read. -/
def strayCall : Tree :=
  .node (sampleInfo "call_expression" 0 4 none)
    [.node { sampleInfo "identifier" 0 1 (some "function") with unreadable := some "lost" } [],
      .node (sampleInfo "arguments" 1 4 (some "arguments")) []]

/-- A call of `a` inside a stretch is no usage of `a`, no fault, and no reason to fail. -/
theorem reads_alike_of_refilled_strayCall :
    (strayStretch []).tree.Refilled (strayStretch [strayCall]).tree ∧
    (strayStretch [strayCall]).trace.failure = none ∧
    (strayStretch [strayCall]).trace.found.map (fun o => (o.name, o.usages)) =
      [(Text.ofString "a", [])] ∧
    (strayStretch [strayCall]).tree.errorCount = 1 := by
  have hrefilled : (strayStretch []).tree.Refilled (strayStretch [strayCall]).tree := by
    refine .node _ (.cons ?_ (.cons ?_ .nil))
    · exact .node _ .nil
    · exact .stretch rfl _ _
  have hbytes : (strayStretch [strayCall]).bytes = (strayStretch []).bytes := rfl
  obtain ⟨htrace, -, -, hfaults, -, -⟩ := reads_alike_of_refilled hbytes hrefilled
  rw [htrace, hfaults]
  exact ⟨hrefilled, by decide +kernel, by decide +kernel, by decide +kernel⟩

end SourceUnit

end TypeBench
