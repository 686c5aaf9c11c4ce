import TypeBench.Text.Basic

/-!
# Scopes

A walk keeps the scopes that enclose its place as a stack of paths. A path of its own replaces
what encloses it, as `class:Cart`; a nested path continues it, as `class:Cart.add`.

## Main definitions

* `ScopeStack`: the enclosing paths, the innermost one first.
* `ScopeStack.enter`, `ScopeStack.enterNested`, `ScopeStack.leave`: entering and leaving a scope.
* `ScopeMove`, `ScopeStack.after`: entering and leaving as data, and the stack after a series.

## Main results

* `ScopeStack.leave_enter`, `ScopeStack.leave_enterNested`: leaving undoes entering.
-/

namespace TypeBench

/-- The paths of the enclosing scopes, the innermost one first and the root last. -/
structure ScopeStack where
  paths : List Text
  deriving DecidableEq

namespace ScopeStack

/-- The stack at the root. -/
def ofRoot (root : Text) : ScopeStack := ⟨[root]⟩

/-- The path of the root of a source unit. -/
def globalPath : Text := "global"

/-- The stack at the root of a source unit. -/
def global : ScopeStack := ofRoot globalPath

/-- The innermost path. -/
def current (s : ScopeStack) : Text := s.paths.headD []

/-- The number of scopes above the root. -/
def depth (s : ScopeStack) : Nat := s.paths.length - 1

/-- The paths from the root inwards. -/
def snapshot (s : ScopeStack) : List Text := s.paths.reverse

/-- Entering a scope with a path of its own. -/
def enter (label : Text) (s : ScopeStack) : ScopeStack := ⟨label :: s.paths⟩

/-- The path of a scope inside another one. -/
def nestedPath (outer label : Text) : Text := outer ++ "." ++ label

/-- Entering a scope whose path continues the current one. -/
def enterNested (label : Text) (s : ScopeStack) : ScopeStack :=
  s.enter (nestedPath s.current label)

/-- Leaving the innermost scope; the root is never left. -/
def leave : ScopeStack → ScopeStack
  | ⟨_ :: outer :: rest⟩ => ⟨outer :: rest⟩
  | s => s

theorem leave_enter (label : Text) (s : ScopeStack) (h : s.paths ≠ []) :
    (s.enter label).leave = s := by
  obtain ⟨paths⟩ := s
  cases paths with
  | nil => exact absurd rfl h
  | cons path rest => rfl

theorem leave_enterNested (label : Text) (s : ScopeStack) (h : s.paths ≠ []) :
    (s.enterNested label).leave = s :=
  leave_enter _ s h

end ScopeStack

/-- A move of a walk between scopes. -/
inductive ScopeMove where
  | enter (label : Text)
  | enterNested (label : Text)
  | leave
  deriving DecidableEq

/-- The stack after a move. -/
def ScopeStack.move (s : ScopeStack) : ScopeMove → ScopeStack
  | .enter label => s.enter label
  | .enterNested label => s.enterNested label
  | .leave => s.leave

/-- The stack after a series of moves. -/
def ScopeStack.after (s : ScopeStack) (moves : List ScopeMove) : ScopeStack :=
  moves.foldl ScopeStack.move s

/-- The stacks before a series of moves and after each of them. -/
def ScopeStack.history (s : ScopeStack) : List ScopeMove → List ScopeStack
  | [] => [s]
  | m :: moves => s :: (s.move m).history moves

end TypeBench
