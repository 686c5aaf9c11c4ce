import TypeBench.Proofs.Occurrence.Steps
import TypeBench.Proofs.Tree.Nodes

/-!
# Usages of a name

The usages of a name are collected before the walk that finds occurrences, by a walk of its own. So
an occurrence bears the usages of its name in the whole source, those that come later with the rest.
The two walks pass different nodes by: the first one lists the nodes below an unnamed one, and the
second one does not. Where an unnamed node has no named one below it, both come to the same nodes.

## Main definitions

* `SourceUnit.usagesOf`: the usages of a name, in the order of the source.
* `SourceUnit.Passes`, `SourceUnit.HasPassed`: the nodes that a walk does not pass by, on some of
  its steps and as a whole.
* `Tree.IsClear`: trees in which nothing named is below an unnamed node.

## Main results

* `Groups.IsGrouped.mem_iff`: a group is told by its items.
* `UsageIndex.mem_ofUnit_iff`: the index holds the usages of each name that has some.
* `SourceUnit.usages_of_mem_walk`: an occurrence bears all usages of its name.
* `SourceUnit.Passes.reachedFrom_eq`: steps pass the nodes that the recursion reaches.
* `SourceUnit.reached_eq_namedNodes`: in clear trees both walks come to the same nodes.
* `SourceUnit.usages_complete`: listed nodes, the index, occurrences and both walks together.
-/

namespace TypeBench

/-! ### Groups with keys of their own -/

namespace Groups

variable {κ α : Type} [DecidableEq κ] {groups : Groups κ α} {key : κ} {found : List α}

/-- No two groups have one key, and every group has items. -/
structure IsGrouped (groups : Groups κ α) : Prop where
  nodup : (groups.map Prod.fst).Nodup
  filled : ∀ group ∈ groups, group.2 ≠ []

theorem map_fst_add (key : κ) (item : α) (groups : Groups κ α) :
    (add key item groups).map Prod.fst =
      if key ∈ groups.map Prod.fst then groups.map Prod.fst
      else groups.map Prod.fst ++ [key] := by
  induction groups with
  | nil => rfl
  | cons group rest ih =>
    obtain ⟨other, items⟩ := group
    rw [add]
    by_cases hkey : other = key
    · rw [if_pos hkey, List.map_cons, List.map_cons, if_pos (hkey ▸ List.mem_cons_self)]
    · rw [if_neg hkey, List.map_cons, List.map_cons, ih]
      have hmem : key ∈ other :: rest.map Prod.fst ↔ key ∈ rest.map Prod.fst :=
        List.mem_cons.trans (or_iff_right fun e => hkey e.symm)
      split_ifs with h h' h'
      · rfl
      · exact absurd (hmem.2 h) h'
      · exact absurd (hmem.1 h') h
      · rfl

theorem filled_add (item : α) (h : ∀ group ∈ groups, group.2 ≠ []) :
    ∀ group ∈ add key item groups, group.2 ≠ [] := by
  induction groups with
  | nil => exact List.forall_mem_singleton.2 (List.cons_ne_nil _ _)
  | cons group rest ih =>
    obtain ⟨hfirst, hrest⟩ := List.forall_mem_cons.1 h
    rw [add]
    split_ifs
    · exact List.forall_mem_cons.2
        ⟨List.append_ne_nil_of_right_ne_nil _ (List.cons_ne_nil _ _), hrest⟩
    · exact List.forall_mem_cons.2 ⟨hfirst, ih hrest⟩

/-- One more item keeps groups apart. -/
theorem IsGrouped.add (h : IsGrouped groups) (key : κ) (item : α) :
    IsGrouped (Groups.add key item groups) := by
  refine ⟨?_, filled_add item h.filled⟩
  rw [map_fst_add]
  split_ifs with hkey
  · exact h.nodup
  · refine List.nodup_append.2 ⟨h.nodup, List.pairwise_singleton _ key, fun other hother => ?_⟩
    exact List.forall_mem_singleton.2 fun e => hkey (e ▸ hother)

/-- Items that are added one by one are grouped. -/
theorem isGrouped_foldl_add {β : Type} (keyOf : β → κ) (itemOf : β → α) (more : List β)
    (h : IsGrouped groups) :
    IsGrouped (more.foldl (fun groups b => Groups.add (keyOf b) (itemOf b) groups) groups) := by
  induction more generalizing groups with
  | nil => exact h
  | cons b more ih => exact ih (h.add (keyOf b) (itemOf b))

theorem mem_of_items_ne_nil (h : items key groups ≠ []) : (key, items key groups) ∈ groups := by
  induction groups with
  | nil => exact absurd rfl h
  | cons group rest ih =>
    obtain ⟨other, found⟩ := group
    rw [items_cons] at h ⊢
    split_ifs at h ⊢ with hkey
    · exact hkey ▸ List.mem_cons_self
    · exact List.mem_cons_of_mem _ (ih h)

theorem items_of_mem (h : (groups.map Prod.fst).Nodup) (hmem : (key, found) ∈ groups) :
    items key groups = found := by
  induction groups with
  | nil => cases hmem
  | cons group rest ih =>
    obtain ⟨other, items⟩ := group
    obtain ⟨hother, hrest⟩ := List.nodup_cons.1 h
    rw [items_cons]
    rcases List.mem_cons.1 hmem with heq | hmem
    · obtain ⟨rfl, rfl⟩ := Prod.mk.inj heq
      exact if_pos rfl
    · have hkey : key ∈ rest.map Prod.fst := List.mem_map_of_mem (f := Prod.fst) hmem
      have hne : other ≠ key := fun e => hother (e ▸ hkey)
      rw [if_neg hne, ih hrest hmem]

/-- A group is told by its items: it is there if it has some. -/
theorem IsGrouped.mem_iff (h : IsGrouped groups) :
    (key, found) ∈ groups ↔ found = items key groups ∧ found ≠ [] := by
  constructor
  · intro hmem
    exact ⟨(items_of_mem h.nodup hmem).symm, h.filled _ hmem⟩
  · rintro ⟨rfl, hfound⟩
    exact mem_of_items_ne_nil hfound

end Groups

/-! ### The index -/

namespace SourceUnit

/-- The usages of a name: the labels of the listed identifiers with this text, in their order. -/
def usagesOf (u : SourceUnit) (name : Text) : List Text :=
  (u.tree.namedNodes.filter fun n => n.kind = NodeKind.identifier ∧ u.text n.tree = name).filterMap
    fun n => (u.usage? n).map Usage.label

end SourceUnit

namespace UsageIndex

variable (u : SourceUnit)

/-- What a node adds to the index: its text and the label of its usage. -/
def reference? (n : Node) : Option (Text × Text) :=
  if n.kind = NodeKind.identifier then
    (u.usage? n).map fun usage => (u.text n.tree, usage.label)
  else none

theorem record_eq (index : UsageIndex) (n : Node) :
    record u index n =
      ((reference? u n).map fun r => Groups.add r.1 r.2 index).getD index := by
  rw [record, reference?]
  split_ifs
  · cases u.usage? n <;> rfl
  · rfl

/-- The index groups the references of all listed nodes. -/
theorem ofUnit_eq :
    ofUnit u = (u.tree.namedNodes.filterMap (reference? u)).foldl
      (fun index r => Groups.add r.1 r.2 index) [] := by
  rw [ofUnit, List.foldl_filterMap]
  congr 1
  funext index n
  rw [record_eq]
  cases reference? u n <;> rfl

theorem isGrouped_ofUnit : Groups.IsGrouped (ofUnit u) := by
  rw [ofUnit_eq]
  exact Groups.isGrouped_foldl_add _ _ _ ⟨List.nodup_nil, List.forall_mem_nil _⟩

/-- The index holds the usages of a name in their order. -/
theorem items_ofUnit (name : Text) : Groups.items name (ofUnit u) = u.usagesOf name := by
  rw [ofUnit_eq, Groups.items_foldl_add, Groups.items_nil, List.nil_append, SourceUnit.usagesOf,
    List.filter_filterMap, List.map_filterMap, List.filterMap_filter]
  congr 1
  funext n
  rw [reference?]
  by_cases hkind : n.kind = NodeKind.identifier
  · by_cases hname : u.text n.tree = name <;> cases u.usage? n <;> simp [hkind, hname]
  · simp [hkind]

/-- The index holds the usages of each name that has some, and nothing else. -/
theorem mem_ofUnit_iff {name : Text} {labels : List Text} :
    (name, labels) ∈ ofUnit u ↔ labels = u.usagesOf name ∧ labels ≠ [] := by
  rw [(isGrouped_ofUnit u).mem_iff, items_ofUnit]

end UsageIndex

theorem Tree.gatherAll_eq_flatMap_gather {α : Type} (rule : Node → List α) (outer : List Tree)
    (trees : List Tree) : gatherAll rule outer trees = trees.flatMap (gather rule outer) := by
  induction trees with
  | nil => rw [gatherAll, List.flatMap_nil]
  | cons tree rest ih => rw [gatherAll, ih, List.flatMap_cons]

namespace SourceUnit

variable (u : SourceUnit)

/-! ### Occurrences -/

theorem usages_of_occurrence? {usages : UsageIndex} {scope : Text} {n : Node} {o : Occurrence}
    (h : u.occurrence? usages scope n = .ok (some o)) : o.usages = Groups.items o.name usages := by
  rw [occurrence?] at h
  split_ifs at h
  · cases hplace : u.position n.tree with
    | error reason =>
      rw [hplace] at h
      cases h
    | ok position =>
      rw [hplace] at h
      obtain rfl := Option.some.inj (Except.ok.inj h)
      rfl
  · cases h

/-- What a walk finds bears the usages that the index has for its name. -/
theorem usages_of_mem_walkFrom (usages : UsageIndex) (scopes : ScopeStack)
    (stack : List Pending) :
    ∀ o ∈ (u.walkFrom usages scopes stack).found, o.usages = Groups.items o.name usages := by
  induction scopes, stack using walkFrom.induct u usages with
  | case1 scopes =>
    rw [walkFrom]
    exact List.forall_mem_nil _
  | case2 scopes n rest ih =>
    rw [walkFrom]
    exact ih
  | case3 scopes n rest hskip ih =>
    rw [walkFrom, if_pos hskip]
    exact ih
  | case4 scopes n rest hskip inside reason hread =>
    simp only [walkFrom, hskip, Bool.false_eq_true, if_false]
    rw [hread]
    exact List.forall_mem_nil _
  | case5 scopes n rest hskip inside found hread ih =>
    simp only [walkFrom, hskip, Bool.false_eq_true, if_false]
    rw [hread]
    refine List.forall_mem_append.2 ⟨fun o ho => ?_, ih⟩
    obtain rfl : found = some o := Option.mem_toList.1 ho
    exact u.usages_of_occurrence? hread

/-- An occurrence bears all usages of its name, from wherever the scopes of the walk begin. -/
theorem usages_of_mem_walk (scopes : ScopeStack) :
    ∀ o ∈ (u.walk scopes).found, o.usages = u.usagesOf o.name := by
  intro o ho
  rw [u.usages_of_mem_walkFrom (UsageIndex.ofUnit u) scopes _ o ho, UsageIndex.items_ofUnit]

/-! ### Nodes that a walk passes -/

/-- The node that the next step of a walk enters and does not pass by. -/
def entered : WalkState → List Node
  | ⟨_, .enter n :: _⟩ => if isSkipped n then [] else [n]
  | _ => []

/-- A series of steps, with the nodes that it enters and does not pass by. -/
inductive Passes : WalkState → List Node → WalkState → Prop
  | refl (s : WalkState) : Passes s [] s
  | head {s s' s'' : WalkState} {found : Option Occurrence} {nodes : List Node}
      (hstep : u.WalkStep s found s') (hrest : Passes s' nodes s'') :
      Passes s (entered s ++ nodes) s''

/-- The nodes that the walk over a source unit enters and does not pass by, up to its end. Where it
ends because a place cannot be read, the node at this place is the last one. -/
def HasPassed (nodes : List Node) : Prop :=
  ∃ before s, u.Passes u.walkStart before s ∧ u.WalkEnd s u.trace.failure u.trace.scopes ∧
    nodes = before ++ entered s

/-- The nodes that the recursion reaches from what is still to do. -/
def reachedFrom (pending : List Pending) : List Node :=
  pending.flatMap fun
    | .enter n => n.tree.gather (fun m => [m]) n.ancestors
    | .leave _ => []

theorem reachedFrom_append (pending rest : List Pending) :
    reachedFrom (pending ++ rest) = reachedFrom pending ++ reachedFrom rest :=
  List.flatMap_append

theorem reachedFrom_enter_of_isSkipped {n : Node} (h : isSkipped n = true) (rest : List Pending) :
    reachedFrom (.enter n :: rest) = reachedFrom rest := by
  have hnone : n.tree.gather (fun m => [m]) n.ancestors = [] := Tree.gather_of_isSkipped _ h
  exact List.flatMap_cons.trans (congrArg (· ++ reachedFrom rest) hnone)

theorem reachedFrom_enter_of_not_isSkipped {n : Node} (h : isSkipped n = false)
    (rest : List Pending) : reachedFrom (.enter n :: rest) =
      n :: (Tree.gatherAll (fun m => [m]) (n.tree :: n.ancestors) n.tree.children ++
        reachedFrom rest) := by
  have hgather := Tree.gather_of_not_isSkipped (fun m => [m]) h
  exact List.flatMap_cons.trans (congrArg (· ++ reachedFrom rest) hgather)

theorem entered_of_not_isSkipped {n : Node} (h : isSkipped n = false) (scopes : ScopeStack)
    (rest : List Pending) : entered ⟨scopes, .enter n :: rest⟩ = [n] := by
  rw [entered, h, if_neg Bool.false_ne_true]

/-- What a node leaves to do reaches the nodes below it: a mark reaches none. -/
theorem reachedFrom_below (n : Node) : reachedFrom (u.below n) =
    Tree.gatherAll (fun m => [m]) (n.tree :: n.ancestors) n.tree.children := by
  have hmark : reachedFrom (u.mark n) = [] := by
    rw [mark]
    split_ifs <;> rfl
  rw [below, reachedFrom_append, hmark, List.append_nil, reachedFrom, List.flatMap_map,
    Node.children, List.flatMap_map]
  exact (Tree.gatherAll_eq_flatMap_gather _ _ _).symm

variable {u}

/-- A step reaches the node that it enters, and what is reached after it. -/
theorem reachedFrom_step {s s' : WalkState} {found : Option Occurrence}
    (h : u.WalkStep s found s') :
    reachedFrom s.pending = entered s ++ reachedFrom s'.pending := by
  cases h with
  | leave n scopes rest => rfl
  | skip scopes rest hskip =>
    rw [reachedFrom_enter_of_isSkipped hskip, entered, if_pos hskip, List.nil_append]
  | enter rest hskip hread =>
    rw [reachedFrom_enter_of_not_isSkipped hskip, entered_of_not_isSkipped hskip,
      reachedFrom_append, reachedFrom_below, List.singleton_append]

/-- Steps enter the nodes that the recursion reaches, in its order. -/
theorem Passes.reachedFrom_eq {s s' : WalkState} {nodes : List Node} (h : u.Passes s nodes s') :
    reachedFrom s.pending = nodes ++ reachedFrom s'.pending := by
  induction h with
  | refl => rfl
  | head hstep _ ih => rw [reachedFrom_step hstep, ih, List.append_assoc]

theorem exists_passes_of_walks {s s' : WalkState} {os : List Occurrence}
    (h : u.Walks s os s') : ∃ nodes, u.Passes s nodes s' := by
  induction h with
  | refl s => exact ⟨[], .refl s⟩
  | head hstep _ ih =>
    obtain ⟨nodes, hnodes⟩ := ih
    exact ⟨_, .head hstep hnodes⟩

variable (u)

theorem exists_hasPassed : ∃ nodes, u.HasPassed nodes := by
  obtain ⟨s, hwalks, hend⟩ := u.walk_inStep.1
  obtain ⟨before, hpasses⟩ := exists_passes_of_walks hwalks
  exact ⟨_, before, s, hpasses, hend, rfl⟩

variable {u}

/-- The walk has passed the first of the nodes that the recursion reaches, and all of them if it has
come to its end. -/
theorem HasPassed.prefix_reached {nodes : List Node} (h : u.HasPassed nodes) :
    nodes <+: u.reached ∧ (u.trace.failure = none → nodes = u.reached) := by
  obtain ⟨before, s, hpasses, hend, rfl⟩ := h
  have hreached : u.reached = before ++ reachedFrom s.pending := by
    rw [← hpasses.reachedFrom_eq]
    exact (List.append_nil _).symm
  rw [hreached]
  generalize u.trace.failure = failure, u.trace.scopes = scopes at hend
  cases hend with
  | done scopes => exact ⟨List.prefix_rfl, fun _ => rfl⟩
  | failed rest hskip hread =>
    rw [reachedFrom_enter_of_not_isSkipped hskip, entered_of_not_isSkipped hskip]
    exact ⟨(List.prefix_append_right_inj before).2 (List.prefix_append [_] _), nofun⟩

end SourceUnit

/-! ### Trees in which both walks come to the same nodes -/

namespace Tree

/-- Nothing named is below an unnamed node. -/
def IsClear (tree : Tree) : Prop :=
  ∀ t ∈ tree.subtrees, t.info.isNamed = false → ∀ s ∈ t.inner, s.info.isNamed = false

/-- In an unnamed tree without names below nothing is listed. -/
theorem filter_isListed_of_not_isNamed {outer : List Tree} {tree : Tree} (h : tree.IsClear)
    (hname : tree.info.isNamed = false) : (nodes outer tree).filter (·.IsListed) = [] := by
  refine List.filter_eq_nil_iff.2 fun n hn hlisted => ?_
  have hmem : n.tree ∈ tree.subtrees := by
    rw [← map_tree_nodes outer]
    exact List.mem_map_of_mem hn
  have hunnamed : n.tree.info.isNamed = false := by
    rw [subtrees_eq] at hmem
    rcases List.mem_cons.1 hmem with heq | hinner
    · rw [heq, hname]
    · exact h tree (subtrees_eq tree ▸ List.mem_cons_self) hname n.tree hinner
  have hnamed := (of_decide_eq_true hlisted).1
  rw [hunnamed] at hnamed
  cases hnamed

mutual

/-- In a clear tree the recursion reaches the nodes that are listed. -/
theorem gather_eq_filter {outer : List Tree} (houter : ∀ tree ∈ outer, tree.isError = false) :
    (tree : Tree) → tree.IsClear →
      tree.gather (fun n => [n]) outer = (nodes outer tree).filter (·.IsListed)
  | node info children => by
    intro h
    have hbelow : ∀ t ∈ subtreesOf children, t.info.isNamed = false →
        ∀ s ∈ t.inner, s.info.isNamed = false := fun t ht =>
      h t (by rw [subtrees]; exact List.mem_cons_of_mem _ ht)
    rw [gather]
    by_cases herror : (node info children).isError = true
    · rw [herror, Bool.true_or, if_pos rfl, filter_isListed_of_isError herror]
    · rw [Bool.not_eq_true] at herror
      have hinside : ∀ tree ∈ node info children :: outer, tree.isError = false :=
        List.forall_mem_cons.2 ⟨herror, houter⟩
      cases hname : info.isNamed with
      | false =>
        rw [Bool.not_false, Bool.or_true, if_pos rfl, filter_isListed_of_not_isNamed h hname]
      | true =>
        have hlisted : decide (Node.IsListed ⟨node info children, outer⟩) = true :=
          decide_eq_true ⟨hname, hinside⟩
        rw [herror, Bool.not_true, Bool.or_false, if_neg Bool.false_ne_true, nodes,
          List.filter_cons_of_pos (p := fun n : Node => n.IsListed) hlisted,
          gatherAll_eq_filter hinside children hbelow]
        rfl

theorem gatherAll_eq_filter {outer : List Tree} (houter : ∀ tree ∈ outer, tree.isError = false) :
    (trees : List Tree) → (∀ t ∈ subtreesOf trees, t.info.isNamed = false →
      ∀ s ∈ t.inner, s.info.isNamed = false) →
      gatherAll (fun n => [n]) outer trees = (nodesOf outer trees).filter (·.IsListed)
  | [] => fun _ => by rw [gatherAll, nodesOf, List.filter_nil]
  | tree :: rest => by
    intro h
    rw [subtreesOf, List.forall_mem_append] at h
    rw [gatherAll, nodesOf, List.filter_append, gather_eq_filter houter tree h.1,
      gatherAll_eq_filter houter rest h.2]

end

end Tree

namespace SourceUnit

/-- In a clear tree the walk over named nodes lists the nodes that the recursion reaches. -/
theorem reached_eq_namedNodes {u : SourceUnit} (h : u.tree.IsClear) :
    u.reached = u.tree.namedNodes := by
  rw [Tree.namedNodes_eq_filter]
  exact Tree.gather_eq_filter (List.forall_mem_nil _) u.tree h

/-- **Usages are complete.** The walk over named nodes lists those that no stretch without a rule
holds, each of them once, in the order of their paths. The index has one group for each name with
usages, and it holds all of them in their order. An occurrence bears all usages of its name,
whatever its scope and wherever the scopes of the walk begin. And if nothing named is below an
unnamed node, the walk that finds occurrences does not pass by the nodes that the walk over named
nodes lists, in the same order: all of them if it comes to its end, and else the first of them. -/
theorem usages_complete (u : SourceUnit) :
    (∃ listed : List (List Nat), listed.Pairwise (· < ·) ∧
      listed.map (Node.ofTree u.tree).at? = u.tree.namedNodes.map some ∧
      ∀ path, path ∈ listed ↔ ∃ n, (Node.ofTree u.tree).at? path = some n ∧ n.IsListed) ∧
    ((UsageIndex.ofUnit u).map Prod.fst).Nodup ∧
    (∀ name labels, (name, labels) ∈ UsageIndex.ofUnit u ↔
      labels = u.usagesOf name ∧ labels ≠ []) ∧
    (∀ scopes, ∀ o ∈ (u.walk scopes).found, o.usages = u.usagesOf o.name) ∧
    (∀ scopes scopes', ∀ o ∈ (u.walk scopes).found, ∀ o' ∈ (u.walk scopes').found,
      o.name = o'.name → o.usages = o'.usages) ∧
    (∃ nodes, u.HasPassed nodes) ∧
    (u.tree.IsClear → ∀ nodes, u.HasPassed nodes → nodes <+: u.tree.namedNodes ∧
      (u.trace.failure = none → nodes = u.tree.namedNodes)) := by
  refine ⟨u.tree.exists_paths_namedNodes, (UsageIndex.isGrouped_ofUnit u).nodup,
    fun _ _ => UsageIndex.mem_ofUnit_iff u, u.usages_of_mem_walk, ?_, u.exists_hasPassed, ?_⟩
  · intro scopes scopes' o ho o' ho' hname
    rw [u.usages_of_mem_walk scopes o ho, u.usages_of_mem_walk scopes' o' ho', hname]
  · intro hclear nodes hnodes
    rw [← reached_eq_namedNodes hclear]
    exact hnodes.prefix_reached

/-- The source `a;()=>a()`, in which a name is called after it has been read. -/
def laterCall : SourceUnit where
  bytes := [97, 59, 40, 41, 61, 62, 97, 40, 41]
  tree := .node (sampleInfo "program" 0 9 none)
    [.node (sampleInfo "expression_statement" 0 2 none)
      [.node (sampleInfo "identifier" 0 1 none) [],
        .node { sampleInfo ";" 1 2 none with isNamed := false } []],
      .node (sampleInfo "expression_statement" 2 9 none)
        [.node (sampleInfo "arrow_function" 2 9 none)
          [.node (sampleInfo "formal_parameters" 2 4 (some "parameters")) [],
            .node (sampleInfo "call_expression" 6 9 (some "body"))
              [.node (sampleInfo "identifier" 6 7 (some "function")) [],
                .node (sampleInfo "arguments" 7 9 (some "arguments")) []]]]]

/-- Both occurrences bear the call, each in its own scope, and both walks come to the same nodes. -/
theorem usages_complete_laterCall :
    laterCall.occurrences.map (fun o => (o.name, o.scope)) =
      [(Text.ofString "a", Text.ofString "global"),
        (Text.ofString "a", Text.ofString "global.arrow")] ∧
    (∀ o ∈ laterCall.occurrences, o.name = Text.ofString "a" →
      o.usages = [Text.ofString "function-call:0-args"]) ∧
    laterCall.tree.IsClear ∧ laterCall.trace.failure = none ∧
    ∃ nodes, laterCall.HasPassed nodes ∧ nodes = laterCall.tree.namedNodes := by
  obtain ⟨-, -, -, husages, -, ⟨nodes, hnodes⟩, hclear⟩ := usages_complete laterCall
  have hreadable : ∀ n ∈ laterCall.reached, ¬laterCall.IsUnreadable n := by
    unfold IsUnreadable
    decide
  obtain ⟨hfound, hend, -⟩ := trace_eq_recursion hreadable
  have htree : laterCall.tree.IsClear := by
    unfold Tree.IsClear
    decide
  have hlabels : laterCall.usagesOf (Text.ofString "a") =
      [Text.ofString "function-call:0-args"] := by
    rw [usagesOf, Tree.namedNodes_eq_filter]
    decide
  refine ⟨?_, fun o ho hname => ?_, htree, hend, nodes, hnodes, (hclear htree nodes hnodes).2 hend⟩
  · rw [hfound]
    decide
  · rw [husages .global o ho, hname, hlabels]

end SourceUnit

end TypeBench
