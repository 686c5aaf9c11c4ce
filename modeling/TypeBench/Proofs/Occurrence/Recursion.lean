import Mathlib.Tactic.SplitIfs
import TypeBench.Occurrence.Walk

/-!
# The walk as a recursion over the tree

The walk keeps nodes and marks on one stack, and the scopes on another. What it finds is what a
plain recursion over the tree finds, in which the scope of an identifier is computed from the trees
around it alone. Behind this stands that a node on top of the stack, entered with the scopes of the
trees around it, is worked off completely before the rest of the stack is, and leaves the scopes as
they were.

## Main definitions

* `Tree.gather`: what a rule gives for the nodes of a tree, from left to right.
* `SourceUnit.pathOf`: the scope inside given trees, folded from the root outwards.
* `SourceUnit.occurrencesBelow`: the occurrences by recursion.
* `SourceUnit.reached`: the nodes that the recursion reaches.
* `SourceUnit.scopesAround`: all scopes inside given trees.
* `SourceUnit.readThrough`: the trace of reading the places of nodes in order.

## Main results

* `SourceUnit.walkFrom_mark`: the mark of a node restores the scopes around it.
* `SourceUnit.walkFrom_enter`: a node on the stack is worked off before the rest of the stack.
* `SourceUnit.trace_eq_readThrough`: the walk reads the nodes that the recursion reaches.
* `SourceUnit.failure_trace_eq_none_iff`: the walk comes to its end if it can read all places.
* `SourceUnit.trace_eq_recursion`: the walk finds what the recursion finds, and ends at the root.
-/

namespace TypeBench

/-! ### The recursion -/

namespace Tree

variable {α : Type} (rule : Node → List α)

mutual

/-- What a rule gives for a tree inside others, the nearest one first. Text that fits no rule of the
grammar and unnamed nodes give nothing, with all that is below them; any other node gives what the
rule gives for it, and then what its children give. -/
def gather (outer : List Tree) : Tree → List α
  | node info children =>
    if (node info children).isError || !info.isNamed then []
    else rule ⟨node info children, outer⟩ ++ gatherAll (node info children :: outer) children

/-- What a rule gives for trees side by side, from left to right. -/
def gatherAll (outer : List Tree) : List Tree → List α
  | [] => []
  | tree :: rest => gather outer tree ++ gatherAll outer rest

end

theorem gather_of_isSkipped {outer : List Tree} {tree : Tree}
    (h : SourceUnit.isSkipped ⟨tree, outer⟩ = true) : gather rule outer tree = [] := by
  cases tree with
  | node info children =>
    rw [gather]
    exact if_pos h

theorem gather_of_not_isSkipped {outer : List Tree} {tree : Tree}
    (h : SourceUnit.isSkipped ⟨tree, outer⟩ = false) :
    gather rule outer tree =
      rule ⟨tree, outer⟩ ++ gatherAll rule (tree :: outer) tree.children := by
  cases tree with
  | node info children =>
    rw [gather]
    exact if_neg fun e => Bool.false_ne_true (h.symm.trans e)

mutual

/-- A rule is applied to the nodes that are reached, in their order. -/
theorem gather_eq_flatMap (outer : List Tree) : (tree : Tree) →
    gather rule outer tree = (gather (fun n => [n]) outer tree).flatMap rule
  | node info children => by
    rw [gather, gather]
    split_ifs
    · rfl
    · rw [List.flatMap_append, List.flatMap_singleton, gatherAll_eq_flatMap _ children]

theorem gatherAll_eq_flatMap (outer : List Tree) : (trees : List Tree) →
    gatherAll rule outer trees = (gatherAll (fun n => [n]) outer trees).flatMap rule
  | [] => by rw [gatherAll, gatherAll, List.flatMap_nil]
  | tree :: rest => by
    rw [gatherAll, gatherAll, List.flatMap_append, gather_eq_flatMap outer tree,
      gatherAll_eq_flatMap outer rest]

end

end Tree

namespace SourceUnit

variable (u : SourceUnit) (usages : UsageIndex)

/-- The scope inside a node. A class or a declared function replaces the scope around it; a method,
an arrow function or a function expression continues it; any other node keeps it. -/
def pathInside (n : Node) (around : Text) : Text :=
  if n.kind = NodeKind.classDeclaration then "class:" ++ u.scopeName n.tree
  else if n.kind.isFunctionDeclaration then "function:" ++ u.scopeName n.tree
  else if n.isClassMethod then around ++ "." ++ u.scopeName n.tree
  else if n.kind = NodeKind.arrowFunction then around ++ ".arrow"
  else if n.kind.isFunctionExpression then around ++ "." ++ u.scopeName n.tree
  else around

/-- The scope inside trees that lie in one another, the innermost one first: the fold from the root
outwards. -/
def pathOf : List Tree → Text
  | [] => "global"
  | tree :: outer => u.pathInside ⟨tree, outer⟩ (pathOf outer)

/-- The occurrence that a node is by itself, if it bears a value. -/
def ownOccurrence? (n : Node) : Option Occurrence :=
  if u.bearsValue n then
    some (u.occurrenceAt usages (u.pathOf n.ancestors) n (u.positionAt n.tree.info.start))
  else none

/-- The occurrences by recursion over the tree. -/
def occurrencesBelow : List Occurrence :=
  u.tree.gather (fun n => (u.ownOccurrence? (UsageIndex.ofUnit u) n).toList) []

/-- The nodes that the recursion reaches, each before those below it. -/
def reached : List Node := u.tree.gather (fun n => [n]) []

/-! ### Scopes around a node -/

/-- All scopes inside trees that lie in one another, the innermost one first. -/
def scopesAround : List Tree → ScopeStack
  | [] => .global
  | tree :: outer => u.scopesInside ⟨tree, outer⟩ (scopesAround outer)

theorem scopesInside_of_eq_none {n : Node} (h : u.opening? n = none) (scopes : ScopeStack) :
    u.scopesInside n scopes = scopes := by
  rw [scopesInside, h]

theorem scopesInside_of_eq_some {n : Node} {opening : ScopeMove} (h : u.opening? n = some opening)
    (scopes : ScopeStack) : u.scopesInside n scopes = scopes.move opening := by
  rw [scopesInside, h]

theorem current_scopesInside (n : Node) (scopes : ScopeStack) :
    (u.scopesInside n scopes).current = u.pathInside n scopes.current := by
  have harrow : scopes.current ++ Text.ofString "." ++ Text.ofString "arrow" =
      scopes.current ++ Text.ofString ".arrow" := by
    rw [List.append_assoc]
    rfl
  rw [pathInside, ← harrow, scopesInside, opening?]
  split_ifs <;> rfl

theorem current_scopesAround : (outer : List Tree) →
    (u.scopesAround outer).current = u.pathOf outer
  | [] => rfl
  | tree :: outer => by
    rw [scopesAround, current_scopesInside, current_scopesAround outer, pathOf]

/-- A node that opens a scope puts one path on top of those around it. -/
theorem exists_enter_of_opening {n : Node} {opening : ScopeMove} (h : u.opening? n = some opening)
    (scopes : ScopeStack) : ∃ path, scopes.move opening = scopes.enter path := by
  simp only [opening?] at h
  split_ifs at h <;> cases h <;> exact ⟨_, rfl⟩

theorem paths_scopesInside_ne_nil (n : Node) {scopes : ScopeStack} (h : scopes.paths ≠ []) :
    (u.scopesInside n scopes).paths ≠ [] := by
  cases hopening : u.opening? n with
  | none =>
    rw [u.scopesInside_of_eq_none hopening]
    exact h
  | some opening =>
    obtain ⟨path, hpath⟩ := u.exists_enter_of_opening hopening scopes
    rw [u.scopesInside_of_eq_some hopening, hpath]
    exact List.cons_ne_nil _ _

theorem paths_scopesAround_ne_nil : (outer : List Tree) → (u.scopesAround outer).paths ≠ []
  | [] => List.cons_ne_nil _ _
  | tree :: outer => u.paths_scopesInside_ne_nil ⟨tree, outer⟩ (paths_scopesAround_ne_nil outer)

/-- An identifier that may bear a value opens no scope. -/
theorem opening?_of_bearsValue {n : Node} (h : u.bearsValue n) : u.opening? n = none := by
  have hkind : n.kind.isCandidate := by
    simp only [bearsValue, Bool.and_eq_true] at h
    exact h.1.1.1
  simp only [NodeKind.isCandidate, Bool.or_eq_true, decide_eq_true_eq] at hkind
  rcases hkind with (hkind | hkind) | hkind
  all_goals
    simp only [opening?, Node.isClassMethod, hkind]
    rfl

theorem scopesInside_of_bearsValue {n : Node} (h : u.bearsValue n) (scopes : ScopeStack) :
    u.scopesInside n scopes = scopes :=
  u.scopesInside_of_eq_none (u.opening?_of_bearsValue h) scopes

theorem occurrence?_inside (n : Node) (scopes : ScopeStack) :
    u.occurrence? usages (u.scopesInside n scopes).current n =
      u.occurrence? usages scopes.current n := by
  by_cases h : u.bearsValue n
  · rw [u.scopesInside_of_bearsValue h]
  · simp only [occurrence?, h, Bool.false_eq_true, if_false]

/-! ### The stack -/

/-- The mark of a node restores the scopes around it. -/
theorem walkFrom_mark (n : Node) {scopes : ScopeStack} (h : scopes.paths ≠ [])
    (rest : List Pending) :
    u.walkFrom usages (u.scopesInside n scopes) (u.mark n ++ rest) =
      u.walkFrom usages scopes rest := by
  rw [mark]
  cases hopening : u.opening? n with
  | none =>
    rw [u.scopesInside_of_eq_none hopening]
    rfl
  | some opening =>
    obtain ⟨path, hpath⟩ := u.exists_enter_of_opening hopening scopes
    rw [u.scopesInside_of_eq_some hopening, hpath, Option.isSome_some, if_pos rfl,
      List.singleton_append, walkFrom, ScopeStack.leave_enter path scopes h]

/-- The trace of reading the places of nodes in order, and then of what comes after them. The first
place that cannot be read ends it. -/
def readThrough : List Node → Trace → Trace
  | [], after => after
  | n :: rest, after =>
    match u.occurrence? usages (u.pathOf n.ancestors) n with
    | .error reason => ⟨[], some reason, u.scopesAround n.ancestors⟩
    | .ok found =>
      let trace := readThrough rest after
      { trace with found := found.toList ++ trace.found }

theorem readThrough_append (nodes more : List Node) (after : Trace) :
    u.readThrough usages (nodes ++ more) after =
      u.readThrough usages nodes (u.readThrough usages more after) := by
  induction nodes with
  | nil => rfl
  | cons n rest ih => simp only [List.cons_append, readThrough, ih]

/-- Entering a node reads it, and leaves its children and its mark on the stack. -/
theorem walkFrom_enter_of_not_isSkipped {n : Node} (h : isSkipped n = false)
    (rest : List Pending) :
    u.walkFrom usages (u.scopesAround n.ancestors) (.enter n :: rest) =
      u.readThrough usages [n] (u.walkFrom usages (u.scopesAround (n.tree :: n.ancestors))
        (n.children.map Pending.enter ++ (u.mark n ++ rest))) := by
  have hbelow : u.below n ++ rest = n.children.map Pending.enter ++ (u.mark n ++ rest) := by
    rw [below, List.append_assoc]
  rw [walkFrom, h, if_neg Bool.false_ne_true]
  simp only [readThrough, occurrence?_inside, current_scopesAround, hbelow]
  cases hread : u.occurrence? usages (u.pathOf n.ancestors) n with
  | ok found => rfl
  | error reason =>
    have hbears : u.bearsValue n := by
      cases hbears : u.bearsValue n with
      | true => rfl
      | false =>
        rw [occurrence?, hbears, if_neg Bool.false_ne_true] at hread
        cases hread
    simp only [u.scopesInside_of_bearsValue hbears]

mutual

/-- A node on the stack is worked off before the rest of the stack, with the scopes around it before
and after. -/
theorem walkFrom_enter (outer : List Tree) : (tree : Tree) → ∀ rest,
    u.walkFrom usages (u.scopesAround outer) (.enter ⟨tree, outer⟩ :: rest) =
      u.readThrough usages (tree.gather (fun n => [n]) outer)
        (u.walkFrom usages (u.scopesAround outer) rest)
  | .node info children => by
    intro rest
    cases hskip : isSkipped ⟨.node info children, outer⟩ with
    | true =>
      rw [walkFrom, hskip, if_pos rfl, Tree.gather_of_isSkipped _ hskip]
      rfl
    | false =>
      rw [Tree.gather_of_not_isSkipped _ hskip, readThrough_append,
        u.walkFrom_enter_of_not_isSkipped usages hskip]
      congr 1
      have hchildren : (Node.mk (.node info children) outer).children.map Pending.enter =
          children.map fun tree => .enter ⟨tree, .node info children :: outer⟩ := by
        simp only [Node.children, Tree.children, List.map_map, Function.comp_def]
      rw [hchildren, walkFrom_enterAll (.node info children :: outer) children]
      congr 1
      exact u.walkFrom_mark usages ⟨.node info children, outer⟩
        (u.paths_scopesAround_ne_nil outer) rest

theorem walkFrom_enterAll (outer : List Tree) : (trees : List Tree) → ∀ rest,
    u.walkFrom usages (u.scopesAround outer)
        (trees.map (fun tree => .enter ⟨tree, outer⟩) ++ rest) =
      u.readThrough usages (Tree.gatherAll (fun n => [n]) outer trees)
        (u.walkFrom usages (u.scopesAround outer) rest)
  | [] => fun rest => by rw [Tree.gatherAll]; rfl
  | tree :: trees => fun rest => by
    rw [List.map_cons, List.cons_append, walkFrom_enter outer tree, walkFrom_enterAll outer trees,
      Tree.gatherAll, readThrough_append]

end

/-! ### The whole walk -/

/-- The walk reads the nodes that the recursion reaches. -/
theorem trace_eq_readThrough :
    u.trace = u.readThrough (UsageIndex.ofUnit u) u.reached ⟨[], none, .global⟩ := by
  have hempty : u.walkFrom (UsageIndex.ofUnit u) .global [] = ⟨[], none, .global⟩ := by
    rw [walkFrom]
  rw [← hempty]
  exact u.walkFrom_enter (UsageIndex.ofUnit u) [] u.tree []

/-- Whether a walk comes to read the place of a node, and cannot. -/
def IsUnreadable (n : Node) : Prop :=
  u.bearsValue n ∧ n.tree.info.unreadable ≠ none

variable {u usages}

theorem occurrence?_of_readable {n : Node} (h : ¬u.IsUnreadable n) :
    u.occurrence? usages (u.pathOf n.ancestors) n = .ok (u.ownOccurrence? usages n) := by
  rw [occurrence?, ownOccurrence?]
  split_ifs with hbears
  · have hplace : n.tree.info.unreadable = none :=
      Decidable.not_not.1 fun hplace => h ⟨hbears, hplace⟩
    simp only [position, hplace]
    rfl
  · rfl

theorem readThrough_of_readable {nodes : List Node} (h : ∀ n ∈ nodes, ¬u.IsUnreadable n)
    (after : Trace) :
    u.readThrough usages nodes after =
      { after with
        found := nodes.flatMap (fun n => (u.ownOccurrence? usages n).toList) ++ after.found } := by
  induction nodes with
  | nil => rfl
  | cons n rest ih =>
    rw [List.forall_mem_cons] at h
    simp only [readThrough, occurrence?_of_readable h.1, ih h.2, List.flatMap_cons,
      List.append_assoc]

theorem exists_error_of_unreadable {n : Node} (h : u.IsUnreadable n) (path : Text) :
    ∃ reason, u.occurrence? usages path n = .error reason := by
  obtain ⟨hbears, hplace⟩ := h
  obtain ⟨reason, hreason⟩ := Option.ne_none_iff_exists'.1 hplace
  refine ⟨reason, ?_⟩
  simp only [occurrence?, position, hbears, hreason, if_true]
  rfl

theorem failure_readThrough_eq_none_iff (nodes : List Node) (after : Trace) :
    (u.readThrough usages nodes after).failure = none ↔
      (∀ n ∈ nodes, ¬u.IsUnreadable n) ∧ after.failure = none := by
  induction nodes with
  | nil => simp [readThrough]
  | cons n rest ih =>
    rw [List.forall_mem_cons, readThrough]
    by_cases h : u.IsUnreadable n
    · obtain ⟨reason, hreason⟩ : ∃ reason,
          u.occurrence? usages (u.pathOf n.ancestors) n = .error reason :=
        exists_error_of_unreadable h _
      simp [hreason, h]
    · simp only [occurrence?_of_readable h, ih]
      simp [h]

/-- The walk comes to its end if and only if no place that it comes to read is unreadable. -/
theorem failure_trace_eq_none_iff :
    u.trace.failure = none ↔ ∀ n ∈ u.reached, ¬u.IsUnreadable n := by
  rw [trace_eq_readThrough, failure_readThrough_eq_none_iff]
  exact and_iff_left rfl

/-- **The walk finds what the recursion finds.** If the place of every identifier that the recursion
reaches can be read, the walk comes to its end, finds the occurrences of the recursion in their
order, and has left all scopes but the root. -/
theorem trace_eq_recursion (h : ∀ n ∈ u.reached, ¬u.IsUnreadable n) :
    u.occurrences = u.occurrencesBelow ∧ u.trace.failure = none ∧
      u.trace.scopes.snapshot = [Text.ofString "global"] := by
  have hbelow : u.occurrencesBelow =
      u.reached.flatMap fun n => (u.ownOccurrence? (UsageIndex.ofUnit u) n).toList :=
    Tree.gather_eq_flatMap _ [] u.tree
  have htrace : u.trace = ⟨u.occurrencesBelow, none, .global⟩ := by
    rw [trace_eq_readThrough, readThrough_of_readable h, hbelow, List.append_nil]
  rw [occurrences, htrace]
  exact ⟨rfl, rfl, rfl⟩

/-- A node of a kind with a span, which fills a field or none. -/
def sampleInfo (kind : String) (start stop : Nat) (field : Option Text) : NodeInfo where
  kind := kind
  isNamed := true
  isMissing := false
  hasError := false
  start := start
  stop := stop
  field := field
  unreadable := none

/-- The source `class A{m(){b;#c}}function f(){d=>e}`. The stretch `#c` fits no rule, and its place
cannot be read. -/
def sampleScopes : SourceUnit where
  bytes := [99, 108, 97, 115, 115, 32, 65, 123, 109, 40, 41, 123, 98, 59, 35, 99, 125, 125, 102,
    117, 110, 99, 116, 105, 111, 110, 32, 102, 40, 41, 123, 100, 61, 62, 101, 125]
  tree := .node (sampleInfo "program" 0 36 none)
    [.node (sampleInfo "class_declaration" 0 18 none)
      [.node (sampleInfo "identifier" 6 7 (some "name")) [],
        .node (sampleInfo "class_body" 7 18 (some "body"))
          [.node (sampleInfo "method_definition" 8 17 none)
            [.node (sampleInfo "property_identifier" 8 9 (some "name")) [],
              .node (sampleInfo "statement_block" 11 17 (some "body"))
                [.node (sampleInfo "identifier" 12 13 none) [],
                  .node (sampleInfo "ERROR" 14 16 none)
                    [.node { sampleInfo "identifier" 15 16 none with unreadable := some "lost" }
                      []]]]]],
      .node (sampleInfo "function_declaration" 18 36 none)
        [.node (sampleInfo "identifier" 27 28 (some "name")) [],
          .node (sampleInfo "statement_block" 30 36 (some "body"))
            [.node (sampleInfo "arrow_function" 31 35 none)
              [.node (sampleInfo "identifier" 31 32 (some "parameter")) [],
                .node (sampleInfo "identifier" 34 35 (some "body")) []]]]]

/-- The method continues the scope of its class, the function has a scope of its own, which the
arrow function continues, and nothing is found in the stretch that fits no rule. -/
theorem trace_eq_recursion_sampleScopes :
    (∀ n ∈ sampleScopes.reached, ¬sampleScopes.IsUnreadable n) ∧
      sampleScopes.occurrences.map (fun o => (o.name, o.position.column, o.scope)) =
        [(Text.ofString "b", 12, Text.ofString "class:A.m"),
          (Text.ofString "d", 31, Text.ofString "function:f.arrow"),
          (Text.ofString "e", 34, Text.ofString "function:f.arrow")] ∧
      sampleScopes.trace.scopes.snapshot = [Text.ofString "global"] := by
  have h : ∀ n ∈ sampleScopes.reached, ¬sampleScopes.IsUnreadable n := by
    unfold IsUnreadable
    decide
  obtain ⟨hfound, -, hscopes⟩ := trace_eq_recursion h
  rw [hfound]
  exact ⟨h, by decide, hscopes⟩

end SourceUnit

end TypeBench
