import TypeBench.Hint
import TypeBench.Occurrence.Basic
import TypeBench.Scope
import TypeBench.Usage

/-!
# The walk that finds occurrences

The walk takes nodes from a stack. A node that opens a scope leaves a mark below its children, and
the scope is left when the mark is reached. The walk ends early at an identifier whose place cannot
be read; what was found before stays.

## Main definitions

* `Pending`: what a walk has still to do.
* `SourceUnit.opened?`: the scopes after entering a node, if the node opens one.
* `SourceUnit.occurrence?`: the occurrence at a node.
* `SourceUnit.below`: what a node that is entered leaves to do.
* `SourceUnit.walk`, `SourceUnit.occurrences`: the whole walk.

## Main results

* `SourceUnit.weights_below_lt`: what a node leaves to do takes fewer steps than the node itself.
-/

namespace TypeBench

/-- What a walk has still to do: enter a node, or leave the scope that a node opened. -/
inductive Pending where
  | enter (n : Node)
  | leave (n : Node)

namespace Pending

/-- A bound on the steps that something pending takes: two for each node to enter, one for each
scope to leave. -/
def weight : Pending → Nat
  | enter n => 2 * n.tree.size
  | leave _ => 1

/-- The bound for a stack. -/
def weights : List Pending → Nat
  | [] => 0
  | p :: rest => p.weight + weights rest

@[simp] theorem weights_nil : weights [] = 0 := rfl

@[simp] theorem weights_cons (p : Pending) (stack : List Pending) :
    weights (p :: stack) = p.weight + weights stack := rfl

@[simp] theorem weights_append (stack more : List Pending) :
    weights (stack ++ more) = weights stack + weights more := by
  induction stack with
  | nil => simp
  | cons p rest ih => simp [ih, Nat.add_assoc]

theorem weights_enter (nodes : List Node) :
    weights (nodes.map enter) = 2 * Node.sizes nodes := by
  induction nodes with
  | nil => simp
  | cons n rest ih => simp [ih, weight, Nat.mul_add]

end Pending

/-- What a walk found, why it ended early if it did, and the scopes at its end. -/
structure Trace where
  found : List Occurrence
  failure : Option Text
  scopes : ScopeStack
  deriving DecidableEq

namespace SourceUnit

/-- The label of a declaration, method or function that has no name. -/
def anonymous : Text := "anonymous"

/-- The name that a node gives to the scope that it opens. -/
def scopeName (u : SourceUnit) (tree : Tree) : Text :=
  match tree.child? "name" with
  | some name => if name.info.kind.isName then u.text name else anonymous
  | none => anonymous

/-- The move into the scope that a node opens. A class or a declared function has a path of its
own; a method, an arrow function or a function expression continues the current path. -/
def opening? (u : SourceUnit) (n : Node) : Option ScopeMove :=
  if n.kind = NodeKind.classDeclaration then
    some (.enter ("class:" ++ u.scopeName n.tree))
  else if n.kind.isFunctionDeclaration then
    some (.enter ("function:" ++ u.scopeName n.tree))
  else if n.isClassMethod then some (.enterNested (u.scopeName n.tree))
  else if n.kind = NodeKind.arrowFunction then some (.enterNested "arrow")
  else if n.kind.isFunctionExpression then some (.enterNested (u.scopeName n.tree))
  else none

/-- Whether an identifier is the name of the declaration around it. -/
def isDeclarationName (n : Node) : Bool :=
  n.parent?.any fun parent => parent.kind.isDeclaration && parent.tree.isChild "name" n.tree

/-- Whether a node is an identifier that may bear a value. -/
def bearsValue (u : SourceUnit) (n : Node) : Bool :=
  n.kind.isCandidate && !n.tree.info.isMissing && !isDeclarationName n && u.text n.tree ≠ []

/-- The occurrence that an identifier at a place is. -/
def occurrenceAt (u : SourceUnit) (usages : UsageIndex) (scope : Text) (n : Node)
    (position : SourcePosition) : Occurrence where
  name := u.text n.tree
  position := position
  scope := scope
  context := (SyntacticContext.ofParent n.parent?).label
  hints := (Hint.semantic (u.text n.tree) (n.parent?.map Node.kind)
    (n.parent?.bind fun parent => u.operator? parent.tree)).map Hint.label
  usages := Groups.items (u.text n.tree) usages

/-- The occurrence at a node, or why its place cannot be read. -/
def occurrence? (u : SourceUnit) (usages : UsageIndex) (scope : Text) (n : Node) :
    Except Text (Option Occurrence) :=
  if u.bearsValue n then
    (u.position n.tree).map fun position => some (u.occurrenceAt usages scope n position)
  else .ok none

/-- Whether the walk passes a node by, with all that is below it. -/
def isSkipped (n : Node) : Bool := n.tree.isError || !n.tree.info.isNamed

/-- The scopes inside a node. -/
def scopesInside (u : SourceUnit) (n : Node) (scopes : ScopeStack) : ScopeStack :=
  match u.opening? n with
  | some opening => scopes.move opening
  | none => scopes

/-- The mark that a node leaves below its children. -/
def mark (u : SourceUnit) (n : Node) : List Pending :=
  if (u.opening? n).isSome then [.leave n] else []

/-- What a node that is entered leaves to do: its children, and then leaving its scope. -/
def below (u : SourceUnit) (n : Node) : List Pending :=
  n.children.map Pending.enter ++ u.mark n

theorem weights_below_lt (u : SourceUnit) (n : Node) :
    Pending.weights (u.below n) < (Pending.enter n).weight := by
  have h := n.sizes_children
  simp only [below, Pending.weights_append, Pending.weights_enter, Pending.weight, mark]
  split <;> simp [Pending.weight] <;> omega

/-- The walk over a stack. -/
def walkFrom (u : SourceUnit) (usages : UsageIndex) (scopes : ScopeStack) : List Pending → Trace
  | [] => ⟨[], none, scopes⟩
  | .leave _ :: rest => walkFrom u usages scopes.leave rest
  | .enter n :: rest =>
    if isSkipped n then walkFrom u usages scopes rest
    else
      let inside := u.scopesInside n scopes
      match u.occurrence? usages inside.current n with
      | .error failure => ⟨[], some failure, inside⟩
      | .ok found =>
        let trace := walkFrom u usages inside (u.below n ++ rest)
        { trace with found := found.toList ++ trace.found }
termination_by stack => Pending.weights stack
decreasing_by
  · simp [Pending.weight]
  · have := n.tree.size_pos
    simp [Pending.weight]
    omega
  · have := u.weights_below_lt n
    simp only [Pending.weights_append, Pending.weights_cons]
    omega

/-- The walk over a source unit, from given scopes. -/
def walk (u : SourceUnit) (scopes : ScopeStack) : Trace :=
  u.walkFrom (UsageIndex.ofUnit u) scopes [.enter (Node.ofTree u.tree)]

/-- The walk over a source unit. -/
def trace (u : SourceUnit) : Trace := u.walk ScopeStack.global

/-- The occurrences of a source unit. -/
def occurrences (u : SourceUnit) : List Occurrence := u.trace.found

end SourceUnit

end TypeBench
