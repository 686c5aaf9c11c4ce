import Mathlib.Data.List.Induction
import Mathlib.Data.List.Infix
import TypeBench.Scope

/-!
# Series of moves between scopes

A stack of scopes may be left more often than it was entered, and then keeps its root. So its depth
is a walk that is held at zero. As long as a series of moves has no more exits than entries at any
of its points, all that was on the stack before stays there, under the paths of the scopes that are
still open; if all of them have been left in the end, the stack is as it was.

## Main definitions

* `ScopeMove.net`, `ScopeMove.depthAfter`: entries less exits, and the walk held at zero.
* `ScopeMove.IsWithin`: series that leave no scope of those that were open before.
* `ScopeMove.IsBalanced`: series that moreover leave all scopes that they enter.
* `ScopeStack.IsRooted`: stacks above a root.

## Main results

* `ScopeStack.move_cases`: what a move does; `ScopeStack.IsRooted.move`, `ScopeStack.depth_move`:
  what it keeps.
* `ScopeStack.exists_above_of_isWithin`: what was on the stack stays there.
* `ScopeStack.paths_of_moves`: root, paths, depth and balanced series together.
-/

namespace TypeBench

/-! ### Counts of moves -/

namespace ScopeMove

/-- What a move adds to the number of open scopes. -/
def step : ScopeMove → Int
  | enter _ => 1
  | enterNested _ => 1
  | leave => -1

/-- The entries of a series less its exits. -/
def net (moves : List ScopeMove) : Int := moves.foldl (fun count m => count + m.step) 0

/-- The walk that goes up by one with an entry and down by one with an exit, but never below
zero. -/
def depthAfter (moves : List ScopeMove) : Int :=
  moves.foldl (fun depth m => max 0 (depth + m.step)) 0

/-- No exit of the series leaves a scope that was open before it. -/
def IsWithin (moves : List ScopeMove) : Prop := ∀ before, before <+: moves → 0 ≤ net before

/-- Every exit of the series has an earlier entry of its own, and no entry is without an exit. -/
structure IsBalanced (moves : List ScopeMove) : Prop where
  within : IsWithin moves
  net_eq_zero : net moves = 0

theorem net_concat (moves : List ScopeMove) (m : ScopeMove) :
    net (moves ++ [m]) = net moves + m.step := by
  simp [net]

theorem depthAfter_concat (moves : List ScopeMove) (m : ScopeMove) :
    depthAfter (moves ++ [m]) = max 0 (depthAfter moves + m.step) := by
  simp [depthAfter]

theorem IsWithin.of_concat {moves : List ScopeMove} {m : ScopeMove} (h : IsWithin (moves ++ [m])) :
    IsWithin moves :=
  fun before hbefore => h before (hbefore.trans (List.prefix_append moves [m]))

theorem IsWithin.net_nonneg {moves : List ScopeMove} (h : IsWithin moves) : 0 ≤ net moves :=
  h moves List.prefix_rfl

instance (moves : List ScopeMove) : Decidable (IsWithin moves) :=
  decidable_of_iff (∀ before ∈ moves.inits, 0 ≤ net before)
    (forall_congr' fun before => by rw [List.mem_inits])

instance (moves : List ScopeMove) : Decidable (IsBalanced moves) :=
  decidable_of_iff (_ ∧ _) ⟨fun h => ⟨h.1, h.2⟩, fun h => ⟨h.within, h.net_eq_zero⟩⟩

end ScopeMove

namespace ScopeStack

open ScopeMove

variable {root : Text} {s : ScopeStack}

/-! ### One move -/

/-- The lowest path of a stack is a root. -/
def IsRooted (root : Text) (s : ScopeStack) : Prop := ∃ above, s.paths = above ++ [root]

theorem IsRooted.paths_ne_nil (h : s.IsRooted root) : s.paths ≠ [] := by
  obtain ⟨above, hpaths⟩ := h
  simp [hpaths]

theorem IsRooted.exists_snapshot_eq (h : s.IsRooted root) :
    ∃ above, s.snapshot = root :: above := by
  obtain ⟨above, hpaths⟩ := h
  exact ⟨above.reverse, by simp [snapshot, hpaths]⟩

/-- A move puts a path on the stack, takes the topmost one away, or finds nothing but a root to
leave. -/
theorem move_cases (hs : s.paths ≠ []) (m : ScopeMove) :
    (∃ path, s.move m = s.enter path ∧ m.step = 1) ∨
    (∃ path below, s.paths = path :: below ∧ below ≠ [] ∧ s.move m = ⟨below⟩ ∧ m.step = -1) ∨
    (∃ root, s.paths = [root] ∧ s.move m = s ∧ m.step = -1) := by
  cases m with
  | enter label => exact .inl ⟨label, rfl, rfl⟩
  | enterNested label => exact .inl ⟨nestedPath s.current label, rfl, rfl⟩
  | leave =>
    obtain ⟨paths⟩ := s
    match paths with
    | [] => exact absurd rfl hs
    | [root] => exact .inr (.inr ⟨root, rfl, rfl, rfl⟩)
    | path :: outer :: rest =>
      exact .inr (.inl ⟨path, outer :: rest, rfl, List.cons_ne_nil _ _, rfl, rfl⟩)

/-- Every move keeps the root. -/
theorem IsRooted.move (h : s.IsRooted root) (m : ScopeMove) : (s.move m).IsRooted root := by
  rcases move_cases h.paths_ne_nil m with ⟨path, hmove, -⟩ |
    ⟨path, below, hpaths, hbelow, hmove, -⟩ | ⟨-, -, hmove, -⟩ <;> rw [hmove]
  · obtain ⟨above, hpaths⟩ := h
    exact ⟨path :: above, congrArg (path :: ·) hpaths⟩
  · obtain ⟨above, habove⟩ := h
    rw [hpaths] at habove
    rcases List.cons_eq_append_iff.1 habove with ⟨-, hroot⟩ | ⟨above', -, hrest⟩
    · exact absurd (List.cons.inj hroot).2.symm hbelow
    · exact ⟨above', hrest⟩
  · exact h

/-- A move changes the depth by its step, but not below zero. -/
theorem depth_move (hs : s.paths ≠ []) (m : ScopeMove) :
    ((s.move m).depth : Int) = max 0 (s.depth + m.step) := by
  rcases move_cases hs m with ⟨path, hmove, hstep⟩ | ⟨path, below, hpaths, hbelow, hmove, hstep⟩ |
    ⟨root, hpaths, hmove, hstep⟩ <;> rw [hmove, hstep]
  · have hlength := List.length_pos_iff.2 hs
    simp only [depth, enter, List.length_cons]
    omega
  · have hlength := List.length_pos_iff.2 hbelow
    simp only [depth, hpaths, List.length_cons]
    omega
  · rw [depth, hpaths]
    rfl

/-! ### Series of moves -/

theorem after_append (s : ScopeStack) (moves more : List ScopeMove) :
    s.after (moves ++ more) = (s.after moves).after more := List.foldl_append

theorem after_concat (s : ScopeStack) (moves : List ScopeMove) (m : ScopeMove) :
    s.after (moves ++ [m]) = (s.after moves).move m := after_append s moves [m]

theorem isRooted_after (root : Text) (moves : List ScopeMove) :
    ((ofRoot root).after moves).IsRooted root := by
  induction moves using List.reverseRecOn with
  | nil => exact ⟨[], rfl⟩
  | append_singleton moves m ih =>
    rw [after_concat]
    exact ih.move m

/-- The depth follows the walk that is held at zero. -/
theorem depth_after (root : Text) (moves : List ScopeMove) :
    (((ofRoot root).after moves).depth : Int) = depthAfter moves := by
  induction moves using List.reverseRecOn with
  | nil => rfl
  | append_singleton moves m ih =>
    rw [after_concat, depth_move (isRooted_after root moves).paths_ne_nil, ih, depthAfter_concat]

/-- A series within the open scopes leaves the stack as it was, under the paths of the scopes that
it has entered and not left. -/
theorem exists_above_of_isWithin (hs : s.paths ≠ []) {moves : List ScopeMove}
    (h : IsWithin moves) :
    ∃ above, (s.after moves).paths = above ++ s.paths ∧ (above.length : Int) = net moves := by
  induction moves using List.reverseRecOn with
  | nil => exact ⟨[], rfl, rfl⟩
  | append_singleton moves m ih =>
    obtain ⟨above, habove, hlength⟩ := ih h.of_concat
    have hne : (s.after moves).paths ≠ [] := by
      rw [habove]
      exact List.append_ne_nil_of_right_ne_nil above hs
    have hnet := h.net_nonneg
    rw [net_concat] at hnet
    rw [after_concat, net_concat]
    rcases move_cases hne m with ⟨path, hmove, hstep⟩ | ⟨path, below, hpaths, -, hmove, hstep⟩ |
      ⟨path, hpaths, -, hstep⟩
    · rw [hmove]
      exact ⟨path :: above, congrArg (path :: ·) habove, by rw [hstep, ← hlength]; rfl⟩
    all_goals
      -- The series so far has entered a scope that it has not left.
      rw [hpaths] at habove
      obtain ⟨top, above, rfl⟩ := List.exists_cons_of_length_pos (l := above) (by omega)
      obtain ⟨-, hrest⟩ := List.cons.inj habove
    · rw [hmove]
      refine ⟨above, hrest, ?_⟩
      rw [hstep, ← hlength, List.length_cons]
      omega
    · exact absurd hrest.symm (List.append_ne_nil_of_right_ne_nil above hs)

/-- A path that was put on the stack stays where it is until it is left. -/
theorem exists_snapshot_after_enter (s : ScopeStack) (path : Text) {inside : List ScopeMove}
    (h : IsWithin inside) :
    ∃ above, ((s.enter path).after inside).snapshot = s.snapshot ++ path :: above := by
  obtain ⟨above, hpaths, -⟩ := exists_above_of_isWithin (s := s.enter path) (List.cons_ne_nil _ _) h
  refine ⟨above.reverse, ?_⟩
  rw [snapshot, hpaths]
  simp [snapshot, enter]

/-- A balanced series restores the stack. -/
theorem after_of_isBalanced (hs : s.paths ≠ []) {moves : List ScopeMove} (h : IsBalanced moves) :
    s.after moves = s := by
  obtain ⟨above, hpaths, hlength⟩ := exists_above_of_isWithin hs h.within
  rw [h.net_eq_zero] at hlength
  obtain rfl : above = [] := List.length_eq_zero_iff.1 (Int.ofNat_eq_zero.1 hlength)
  exact congrArg mk hpaths

theorem snapshot_eq_concat_current (hs : s.paths ≠ []) :
    ∃ below, s.snapshot = below ++ [s.current] := by
  obtain ⟨path, below, hpaths⟩ := List.exists_cons_of_ne_nil hs
  exact ⟨below.reverse, by simp [snapshot, current, hpaths]⟩

/-- **Scopes under any moves.** Whatever moves are made from a root, the root stays at the bottom of
the stack; a nested path stands on the path that it continues, for as long as it is not left; the
depth follows the walk that is held at zero; and a balanced series restores the stack. -/
theorem paths_of_moves (root : Text) (moves : List ScopeMove) :
    (∃ above, ((ofRoot root).after moves).snapshot = root :: above) ∧
    (∀ (before : List ScopeMove) (label : Text) (inside : List ScopeMove),
      moves = before ++ .enterNested label :: inside → IsWithin inside →
        ∃ (below : List Text) (outer : Text) (above : List Text),
          ((ofRoot root).after before).snapshot = below ++ [outer] ∧
          ((ofRoot root).after moves).snapshot =
            below ++ outer :: (outer ++ "." ++ label) :: above) ∧
    (((ofRoot root).after moves).depth : Int) = depthAfter moves ∧
    ∀ balanced, IsBalanced balanced → ((ofRoot root).after (moves ++ balanced)).snapshot =
      ((ofRoot root).after moves).snapshot := by
  refine ⟨(isRooted_after root moves).exists_snapshot_eq, ?_, depth_after root moves, ?_⟩
  · rintro before label inside rfl hinside
    obtain ⟨below, hbelow⟩ :=
      snapshot_eq_concat_current (isRooted_after root before).paths_ne_nil
    obtain ⟨above, habove⟩ := exists_snapshot_after_enter ((ofRoot root).after before)
      (nestedPath ((ofRoot root).after before).current label) hinside
    refine ⟨below, _, above, hbelow, ?_⟩
    rw [hbelow, List.append_assoc] at habove
    rw [after_append]
    exact habove
  · intro balanced hbalanced
    rw [after_append, after_of_isBalanced (isRooted_after root moves).paths_ne_nil hbalanced]

/-- One exit too many, a method of a class, and in it a function that is entered and left. -/
theorem paths_of_moves_surplus :
    IsWithin [.enter "function:f"] ∧ IsBalanced [.enter "function:f", .leave] ∧
    ((ofRoot globalPath).after [.leave, .enter "class:A", .enterNested "m"]).depth = 2 ∧
    (∃ (below : List Text) (outer : Text) (above : List Text), outer = "class:A" ∧
      ((ofRoot globalPath).after
        [.leave, .enter "class:A", .enterNested "m", .enter "function:f"]).snapshot =
          below ++ outer :: (outer ++ "." ++ "m") :: above) ∧
    ((ofRoot globalPath).after
      [.leave, .enter "class:A", .enterNested "m", .enter "function:f", .leave]).snapshot =
        ((ofRoot globalPath).after [.leave, .enter "class:A", .enterNested "m"]).snapshot := by
  have hwithin : IsWithin [.enter "function:f"] := by decide
  have hbalanced : IsBalanced [.enter "function:f", .leave] := by decide
  obtain ⟨-, -, hdepth, hrestored⟩ :=
    paths_of_moves globalPath [.leave, .enter "class:A", .enterNested "m"]
  obtain ⟨-, hnested, -, -⟩ :=
    paths_of_moves globalPath [.leave, .enter "class:A", .enterNested "m", .enter "function:f"]
  obtain ⟨below, outer, above, hbelow, hsnapshot⟩ :=
    hnested [.leave, .enter "class:A"] "m" [.enter "function:f"] rfl hwithin
  have houter : some (Text.ofString "class:A") = some outer :=
    (congrArg List.getLast? hbelow).trans List.getLast?_concat
  exact ⟨hwithin, hbalanced, Int.ofNat_inj.1 hdepth,
    ⟨below, outer, above, (Option.some.inj houter).symm, hsnapshot⟩, hrestored _ hbalanced⟩

end ScopeStack

end TypeBench
