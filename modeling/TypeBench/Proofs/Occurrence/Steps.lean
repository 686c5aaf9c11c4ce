import TypeBench.Proofs.Occurrence.Recursion

/-!
# The walk step by step

Between two steps a walk is told by its scopes and by its stack of what is still to do. A mark on
the stack stands for one scope, and the marks below a pending node are those of the nodes around it
that opened one. So the scopes are the root and one path for each mark, in the same order; a mark is
never reached when only the root is left; and an identifier is read with the scopes of the nodes
around it, whether its place can be read or not.

## Main definitions

* `WalkState`: the scopes and the stack of a walk.
* `SourceUnit.WalkStep`, `SourceUnit.WalkEnd`, `SourceUnit.Walks`: one step, the end, and a series
  of steps with the occurrences that it finds.
* `SourceUnit.pathPushed`: the path that a node puts on the scopes when it is entered.
* `SourceUnit.openers`: the nodes around a node that open scopes.
* `SourceUnit.InStep`: scopes and marks correspond.

## Main results

* `SourceUnit.exists_walks`, `SourceUnit.walkOf_of_walks`: a walk is a series of steps.
* `SourceUnit.Corresponds.step`: every step keeps scopes and marks corresponding.
* `SourceUnit.walk_inStep`: scopes and marks correspond at every step of a walk, and a walk that has
  come to its end can be repeated.
-/

namespace TypeBench

/-! ### Steps -/

/-- Where a walk stands: the scopes, and what it has still to do. -/
structure WalkState where
  scopes : ScopeStack
  pending : List Pending

namespace Pending

/-- The node that is entered or whose scope is left. -/
def node : Pending → Node
  | enter n => n
  | leave n => n

/-- The node whose scope is left. -/
def marked? : Pending → Option Node
  | enter _ => none
  | leave n => some n

/-- The nodes of the marks on a stack, the topmost one first. -/
def marks (stack : List Pending) : List Node := stack.filterMap marked?

@[simp] theorem marks_nil : marks [] = [] := rfl

@[simp] theorem marks_enter (n : Node) (rest : List Pending) :
    marks (enter n :: rest) = marks rest := rfl

@[simp] theorem marks_leave (n : Node) (rest : List Pending) :
    marks (leave n :: rest) = n :: marks rest := rfl

@[simp] theorem marks_append_enter (nodes : List Node) (rest : List Pending) :
    marks (nodes.map enter ++ rest) = marks rest := by
  induction nodes with
  | nil => rfl
  | cons n nodes ih => exact ih

end Pending

namespace SourceUnit

variable (u : SourceUnit)

/-- One step of a walk, with the occurrence that it finds, if any. -/
inductive WalkStep : WalkState → Option Occurrence → WalkState → Prop
  | leave (n : Node) (scopes : ScopeStack) (rest : List Pending) :
      WalkStep ⟨scopes, .leave n :: rest⟩ none ⟨scopes.leave, rest⟩
  | skip {n : Node} (scopes : ScopeStack) (rest : List Pending) (hskip : isSkipped n = true) :
      WalkStep ⟨scopes, .enter n :: rest⟩ none ⟨scopes, rest⟩
  | enter {n : Node} {scopes : ScopeStack} {found : Option Occurrence} (rest : List Pending)
      (hskip : isSkipped n = false)
      (hread : u.occurrence? (UsageIndex.ofUnit u) (u.scopesInside n scopes).current n =
        .ok found) :
      WalkStep ⟨scopes, .enter n :: rest⟩ found ⟨u.scopesInside n scopes, u.below n ++ rest⟩

/-- The end of a walk: nothing is left to do, or the place of an identifier cannot be read. -/
inductive WalkEnd : WalkState → Option Text → ScopeStack → Prop
  | done (scopes : ScopeStack) : WalkEnd ⟨scopes, []⟩ none scopes
  | failed {n : Node} {scopes : ScopeStack} {reason : Text} (rest : List Pending)
      (hskip : isSkipped n = false)
      (hread : u.occurrence? (UsageIndex.ofUnit u) (u.scopesInside n scopes).current n =
        .error reason) :
      WalkEnd ⟨scopes, .enter n :: rest⟩ (some reason) (u.scopesInside n scopes)

/-- A series of steps, with the occurrences that it finds. -/
inductive Walks : WalkState → List Occurrence → WalkState → Prop
  | refl (s : WalkState) : Walks s [] s
  | head {s s' s'' : WalkState} {found : Option Occurrence} {os : List Occurrence}
      (hstep : u.WalkStep s found s') (hrest : Walks s' os s'') : Walks s (found.toList ++ os) s''

/-- The walk from a state on. -/
def walkOf (s : WalkState) : Trace := u.walkFrom (UsageIndex.ofUnit u) s.scopes s.pending

/-- Where a walk begins. -/
def walkStart : WalkState := ⟨.global, [.enter (Node.ofTree u.tree)]⟩

variable {u}

theorem walkOf_of_step {s s' : WalkState} {found : Option Occurrence}
    (h : u.WalkStep s found s') :
    u.walkOf s = { u.walkOf s' with found := found.toList ++ (u.walkOf s').found } := by
  cases h with
  | leave => simp [walkOf, walkFrom]
  | skip _ _ hskip => simp [walkOf, walkFrom, hskip]
  | enter _ hskip hread => simp [walkOf, walkFrom, hskip, hread]

/-- The walk goes on from every state that a series of steps comes to. -/
theorem walkOf_of_walks {s s' : WalkState} {os : List Occurrence} (h : u.Walks s os s') :
    u.walkOf s = { u.walkOf s' with found := os ++ (u.walkOf s').found } := by
  induction h with
  | refl => rfl
  | head hstep _ ih => rw [walkOf_of_step hstep, ih, List.append_assoc]

/-- A walk is a series of steps up to its end. -/
theorem exists_walks (scopes : ScopeStack) (pending : List Pending) :
    ∃ s, u.Walks ⟨scopes, pending⟩ (u.walkOf ⟨scopes, pending⟩).found s ∧
      u.WalkEnd s (u.walkOf ⟨scopes, pending⟩).failure (u.walkOf ⟨scopes, pending⟩).scopes := by
  simp only [walkOf]
  induction scopes, pending using walkFrom.induct u (UsageIndex.ofUnit u) with
  | case1 scopes =>
    rw [walkFrom]
    exact ⟨_, .refl _, .done scopes⟩
  | case2 scopes n rest ih =>
    obtain ⟨s, hwalks, hend⟩ := ih
    rw [walkFrom]
    exact ⟨s, .head (.leave n scopes rest) hwalks, hend⟩
  | case3 scopes n rest hskip ih =>
    obtain ⟨s, hwalks, hend⟩ := ih
    rw [walkFrom, if_pos hskip]
    exact ⟨s, .head (.skip scopes rest hskip) hwalks, hend⟩
  | case4 scopes n rest hskip inside reason hread =>
    rw [Bool.not_eq_true] at hskip
    simp only [walkFrom, hskip, Bool.false_eq_true, if_false]
    rw [hread]
    exact ⟨_, .refl _, .failed rest hskip hread⟩
  | case5 scopes n rest hskip inside found hread ih =>
    obtain ⟨s, hwalks, hend⟩ := ih
    rw [Bool.not_eq_true] at hskip
    simp only [walkFrom, hskip, Bool.false_eq_true, if_false]
    rw [hread]
    exact ⟨s, .head (.enter rest hskip hread) hwalks, hend⟩

/-! ### Scopes and marks -/

variable (u)

/-- The path that a node puts on the scopes when it is entered. -/
def pathPushed (n : Node) : Text := u.pathOf (n.tree :: n.ancestors)

/-- The nodes that open scopes, of trees that lie in one another; the innermost one first. -/
def openers : List Tree → List Node
  | [] => []
  | tree :: outer =>
    if (u.opening? ⟨tree, outer⟩).isSome then ⟨tree, outer⟩ :: openers outer else openers outer

/-- The root and the paths of some nodes, the innermost one first. -/
def pathsOf (nodes : List Node) : List Text := nodes.map u.pathPushed ++ [ScopeStack.globalPath]

/-- The root and the paths of the nodes around a node that open scopes, from the root inwards. -/
def snapshotAround (n : Node) : List Text :=
  ScopeStack.globalPath :: (u.openers n.ancestors).reverse.map u.pathPushed

theorem reverse_pathsOf (nodes : List Node) :
    (u.pathsOf nodes).reverse = ScopeStack.globalPath :: nodes.reverse.map u.pathPushed := by
  simp [pathsOf]

/-- A node that opens a scope puts its path on the scopes around it. -/
theorem scopesInside_eq_enter {n : Node} (h : (u.opening? n).isSome) :
    u.scopesInside n (u.scopesAround n.ancestors) =
      (u.scopesAround n.ancestors).enter (u.pathPushed n) := by
  obtain ⟨opening, hopening⟩ := Option.isSome_iff_exists.1 h
  obtain ⟨path, hpath⟩ := u.exists_enter_of_opening hopening (u.scopesAround n.ancestors)
  have hcurrent := u.current_scopesAround (n.tree :: n.ancestors)
  rw [scopesAround, u.scopesInside_of_eq_some hopening, hpath] at hcurrent
  obtain rfl : path = u.pathPushed n := hcurrent
  rw [u.scopesInside_of_eq_some hopening, hpath]

/-- The scopes around a place are the root and the paths of the nodes around it that open some. -/
theorem paths_scopesAround (outer : List Tree) :
    (u.scopesAround outer).paths = u.pathsOf (u.openers outer) := by
  induction outer with
  | nil => rfl
  | cons tree outer ih =>
    rw [scopesAround, openers]
    split_ifs with h
    · rw [u.scopesInside_eq_enter (n := ⟨tree, outer⟩) h]
      exact congrArg (u.pathPushed ⟨tree, outer⟩ :: ·) ih
    · rw [u.scopesInside_of_eq_none (Option.not_isSome_iff_eq_none.1 h), ih]

/-- Below everything on a stack are the marks of the nodes around it that opened scopes. -/
def IsNested : List Pending → Prop
  | [] => True
  | p :: rest => u.openers p.node.ancestors = Pending.marks rest ∧ IsNested rest

/-- The scopes are the root and the paths of the marks. -/
structure Corresponds (s : WalkState) : Prop where
  nested : u.IsNested s.pending
  paths_eq : s.scopes.paths = u.pathsOf (Pending.marks s.pending)

variable {u}

theorem openers_children (n : Node) (rest : List Pending)
    (h : u.openers n.ancestors = Pending.marks rest) :
    u.openers (n.tree :: n.ancestors) = Pending.marks (u.mark n ++ rest) := by
  rw [openers, mark]
  split_ifs
  · exact congrArg (n :: ·) h
  · exact h

/-- Entering a node leaves a nested stack: its children lie above its mark. -/
theorem IsNested.below {n : Node} {rest : List Pending} (h : u.IsNested (.enter n :: rest)) :
    u.IsNested (u.below n ++ rest) := by
  obtain ⟨hopeners, hrest⟩ := h
  have hmark : u.IsNested (u.mark n ++ rest) := by
    rw [mark]
    split_ifs
    · exact ⟨hopeners, hrest⟩
    · exact hrest
  have hchildren (nodes : List Node) (hnodes : ∀ c ∈ nodes, c.ancestors = n.tree :: n.ancestors) :
      u.IsNested (nodes.map Pending.enter ++ (u.mark n ++ rest)) := by
    induction nodes with
    | nil => exact hmark
    | cons c nodes ih =>
      obtain ⟨hc, hnodes⟩ := List.forall_mem_cons.1 hnodes
      refine ⟨?_, ih hnodes⟩
      show u.openers c.ancestors =
        Pending.marks (nodes.map Pending.enter ++ (u.mark n ++ rest))
      rw [hc, Pending.marks_append_enter, openers_children n rest hopeners]
  rw [SourceUnit.below, List.append_assoc]
  exact hchildren n.children (by simp [Node.children])

/-- A pending node is entered with the scopes of the nodes around it. -/
theorem Corresponds.scopes_eq {n : Node} {scopes : ScopeStack} {rest : List Pending}
    (h : u.Corresponds ⟨scopes, .enter n :: rest⟩) : scopes = u.scopesAround n.ancestors := by
  have hopeners : u.openers n.ancestors = Pending.marks rest := h.nested.1
  have hpaths : scopes.paths = (u.scopesAround n.ancestors).paths := by
    rw [paths_scopesAround, hopeners]
    exact h.paths_eq
  exact congrArg ScopeStack.mk hpaths

/-- A mark is reached with the path of its node above another one. -/
theorem Corresponds.exists_scopes {n : Node} {scopes : ScopeStack} {rest : List Pending}
    (h : u.Corresponds ⟨scopes, .leave n :: rest⟩) : ∃ path outer,
      u.pathsOf (Pending.marks rest) = path :: outer ∧
        scopes = ⟨u.pathPushed n :: path :: outer⟩ := by
  obtain ⟨path, outer, hpaths⟩ := List.exists_cons_of_ne_nil
    (show u.pathsOf (Pending.marks rest) ≠ [] by simp [pathsOf])
  refine ⟨path, outer, hpaths, congrArg ScopeStack.mk ?_⟩
  rw [← hpaths]
  exact h.paths_eq

/-- Every step keeps scopes and marks corresponding. -/
theorem Corresponds.step {s s' : WalkState} {found : Option Occurrence} (h : u.Corresponds s)
    (hstep : u.WalkStep s found s') : u.Corresponds s' := by
  cases hstep with
  | leave n scopes rest =>
    obtain ⟨path, outer, hpaths, rfl⟩ := h.exists_scopes
    exact ⟨h.nested.2, hpaths.symm⟩
  | skip scopes rest hskip => exact ⟨h.nested.2, h.paths_eq⟩
  | @enter n scopes found rest hskip hread =>
    have hopeners := openers_children n rest h.nested.1
    refine ⟨h.nested.below, ?_⟩
    rw [below, List.append_assoc, Pending.marks_append_enter, ← hopeners, ← paths_scopesAround,
      h.scopes_eq]
    rfl

theorem Corresponds.walks {s s' : WalkState} {os : List Occurrence} (h : u.Corresponds s)
    (hwalks : u.Walks s os s') : u.Corresponds s' := by
  induction hwalks with
  | refl => exact h
  | head hstep _ ih => exact ih (h.step hstep)

theorem corresponds_walkStart : u.Corresponds u.walkStart := ⟨⟨rfl, trivial⟩, rfl⟩

/-! ### What holds at every step -/

variable (u)

/-- What holds between two steps of a walk: the scopes are the root and the paths of the marks, from
the bottom to the top; a mark is reached with a scope to leave; a node that opens a scope puts its
path on the scopes; and an identifier is read, or cannot be, with the scopes of the nodes around
it. -/
structure InStep (s : WalkState) : Prop where
  snapshot_eq : s.scopes.snapshot =
    ScopeStack.globalPath :: (Pending.marks s.pending).reverse.map u.pathPushed
  depth_eq : s.scopes.depth = (Pending.marks s.pending).length
  leaves : ∀ n rest, s.pending = .leave n :: rest →
    s.scopes.depth ≠ 0 ∧ s.scopes = s.scopes.leave.enter (u.pathPushed n)
  enters : ∀ n rest opening, s.pending = .enter n :: rest → u.opening? n = some opening →
    s.scopes.move opening = s.scopes.enter (u.pathPushed n)
  finds : ∀ o s', u.WalkStep s (some o) s' → ∃ n rest, s.pending = .enter n :: rest ∧
    u.occurrence? (UsageIndex.ofUnit u) s'.scopes.current n = .ok (some o) ∧
    s'.scopes.snapshot = u.snapshotAround n
  fails : ∀ reason scopes, u.WalkEnd s (some reason) scopes → ∃ n rest,
    s.pending = .enter n :: rest ∧
    u.occurrence? (UsageIndex.ofUnit u) scopes.current n = .error reason ∧
    scopes.snapshot = u.snapshotAround n

variable {u}

/-- Only an identifier is read. -/
theorem bearsValue_of_occurrence?_ne {usages : UsageIndex} {scope : Text} {n : Node}
    {read : Except Text (Option Occurrence)} (h : u.occurrence? usages scope n = read)
    (hread : read ≠ .ok none) : u.bearsValue n = true := by
  by_cases hbears : u.bearsValue n = true
  · exact hbears
  · exact absurd (h.symm.trans (if_neg hbears)) hread

/-- An identifier is read with the scopes of the nodes around it. -/
theorem Corresponds.snapshot_scopesInside {n : Node} {scopes : ScopeStack} {rest : List Pending}
    (h : u.Corresponds ⟨scopes, .enter n :: rest⟩) (hbears : u.bearsValue n) :
    (u.scopesInside n scopes).snapshot = u.snapshotAround n := by
  rw [u.scopesInside_of_bearsValue hbears, h.scopes_eq, ScopeStack.snapshot, paths_scopesAround,
    reverse_pathsOf]
  rfl

theorem Corresponds.inStep {s : WalkState} (h : u.Corresponds s) : u.InStep s where
  snapshot_eq := by rw [ScopeStack.snapshot, h.paths_eq, reverse_pathsOf]
  depth_eq := by simp [ScopeStack.depth, h.paths_eq, pathsOf]
  leaves := by
    obtain ⟨scopes, pending⟩ := s
    rintro n rest rfl
    obtain ⟨path, outer, -, rfl⟩ := h.exists_scopes
    exact ⟨by simp [ScopeStack.depth], rfl⟩
  enters := by
    obtain ⟨scopes, pending⟩ := s
    rintro n rest opening rfl hopening
    have hinside := u.scopesInside_eq_enter (Option.isSome_of_eq_some hopening)
    rw [u.scopesInside_of_eq_some hopening, ← h.scopes_eq] at hinside
    exact hinside
  finds := by
    intro o s' hstep
    cases hstep with
    | enter rest _ hread =>
      have hbears := bearsValue_of_occurrence?_ne hread nofun
      exact ⟨_, rest, rfl, hread, h.snapshot_scopesInside hbears⟩
  fails := by
    intro reason scopes hend
    cases hend with
    | failed rest _ hread =>
      have hbears := bearsValue_of_occurrence?_ne hread nofun
      exact ⟨_, rest, rfl, hread, h.snapshot_scopesInside hbears⟩

variable (u)

/-- **Scopes and marks correspond at every step.** The walk over a source unit is a series of steps
up to its end. After any number of them the walk goes on from the state it has come to, and there
the scopes are the root and the paths of the marks on the stack. A walk that comes to its end leaves
the scopes as they were, so walking once more gives the same. -/
theorem walk_inStep :
    (∃ s, u.Walks u.walkStart u.trace.found s ∧ u.WalkEnd s u.trace.failure u.trace.scopes) ∧
    (∀ os s, u.Walks u.walkStart os s →
      u.trace = { u.walkOf s with found := os ++ (u.walkOf s).found } ∧ u.InStep s) ∧
    (u.trace.failure = none → u.walk u.trace.scopes = u.trace) := by
  have hend : ∃ s, u.Walks u.walkStart u.trace.found s ∧
      u.WalkEnd s u.trace.failure u.trace.scopes :=
    exists_walks ScopeStack.global [.enter (Node.ofTree u.tree)]
  refine ⟨hend, fun os s hwalks => ⟨walkOf_of_walks hwalks, ?_⟩, fun hfailure => ?_⟩
  · exact (corresponds_walkStart.walks hwalks).inStep
  · obtain ⟨s, hwalks, hend⟩ := hend
    have hpaths := (corresponds_walkStart.walks hwalks).paths_eq
    have hscopes : u.trace.scopes = .global := by
      rw [hfailure] at hend
      cases hend with
      | done scopes => exact congrArg ScopeStack.mk hpaths
    rw [hscopes, trace]

/-- The walk over `sampleScopes` comes to its end, so it can be repeated. -/
theorem walk_inStep_sampleScopes : sampleScopes.trace.failure = none ∧
    sampleScopes.walk sampleScopes.trace.scopes = sampleScopes.trace := by
  have hreadable : ∀ n ∈ sampleScopes.reached, ¬sampleScopes.IsUnreadable n := by
    unfold IsUnreadable
    decide
  have hfailure := failure_trace_eq_none_iff.2 hreadable
  exact ⟨hfailure, (walk_inStep sampleScopes).2.2 hfailure⟩

end SourceUnit

end TypeBench
