import TypeBench.Proofs.Occurrence.Unreadable
import TypeBench.Proofs.Tree.Place

/-!
# Occurrences in the order of the source

The spans of a tree lie in one another like its nodes: children lie inside their parent, and one
after the other. Then of two nodes that the walk reaches, the later one either is below the earlier
one or starts where that one has stopped. Identifiers are not below one another and have a text, so
they start at different bytes, in rising order; and what starts at a later byte has a later place,
also after characters of several bytes and across lines.

## Main definitions

* `Tree.subtrees`, `Tree.inner`: all nodes of a tree, and those below its root.
* `Tree.IsLaidOut`: the spans of a tree lie in one another like its nodes.

## Main results

* `SourceUnit.positionAt_before`: places rise with the bytes at which characters start.
* `Tree.pairwise_subtrees`: a node below another one, or after its end.
* `SourceUnit.pairwise_occurrences`: the places of occurrences rise.
-/

namespace TypeBench

/-! ### Places rise with bytes -/

namespace Text

/-- What follows without a line end goes on with the begun line. -/
theorem IsBroken.append {t whole begun s : Text} (h : t.IsBroken whole begun)
    (hs : newline ∉ s) : (t ++ s).IsBroken whole (begun ++ s) where
  eq := by rw [h.eq, List.append_assoc]
  whole := h.whole
  not_mem := by simp [h.not_mem, hs]

/-- More bytes come before a later character. -/
theorem IsBoundary.number_lt {t : Text} {index index' number number' : Nat}
    (h : t.IsBoundary index number) (h' : t.IsBoundary index' number') (hlt : index < index') :
    number < number' := by
  by_contra hle
  have hlength := Utf8.length_written_take_le t (Nat.le_of_not_lt hle)
  rw [← h.index_eq, ← h'.index_eq] at hlength
  omega

instance (t : Text) (index : Nat) : Decidable (∃ number, t.IsBoundary index number) :=
  decidable_of_iff (∃ number < t.length + 1, index = (Utf8.written (t.take number)).length)
    ⟨fun ⟨number, hle, heq⟩ => ⟨number, Nat.le_of_lt_succ hle, heq⟩,
      fun ⟨number, hle, heq⟩ => ⟨number, Nat.lt_succ_of_le hle, heq⟩⟩

end Text

namespace SourceUnit

variable {source : Text} {u : SourceUnit}

/-- What starts at a later byte has a later place. -/
theorem positionAt_before (hsource : source.hasSurrogate = false)
    (hbytes : u.bytes = Utf8.written source) {index index' number number' : Nat}
    (h : source.IsBoundary index number) (h' : source.IsBoundary index' number')
    (hlt : index < index') : (u.positionAt index).before (u.positionAt index') := by
  obtain ⟨whole, begun, hbroken⟩ := Text.exists_isBroken (source.take number)
  obtain ⟨hline, hcolumn⟩ := positionAt_eq hsource hbytes h hbroken
  have hnumber := h.number_lt h' hlt
  obtain ⟨s, hs⟩ : source.take number <+: source.take number' :=
    List.take_prefix_take_left (Nat.le_of_lt hnumber)
  by_cases hnewline : Text.newline ∈ s
  · obtain ⟨whole', begun', hbroken'⟩ := Text.exists_isBroken (source.take number')
    obtain ⟨hline', -⟩ := positionAt_eq hsource hbytes h' hbroken'
    have hcount := List.count_pos_iff.2 hnewline
    refine .inl ?_
    rw [hline, hline', ← hs, List.count_append]
    omega
  · obtain ⟨hline', hcolumn'⟩ := positionAt_eq hsource hbytes h' (hs ▸ hbroken.append hnewline)
    have hlength := congrArg List.length hs
    have hle := h'.number_le
    simp only [List.length_append, List.length_take] at hlength
    refine .inr ⟨?_, ?_⟩
    · rw [hline, hline', ← hs, List.count_append, List.count_eq_zero.2 hnewline, Nat.add_zero]
    · rw [hcolumn, hcolumn', List.length_append]
      omega

end SourceUnit

/-! ### Trees laid out in a source -/

namespace Tree

mutual

/-- All nodes of a tree, each before those below it. -/
def subtrees : Tree → List Tree
  | node info children => node info children :: subtreesOf children

/-- All nodes of trees side by side. -/
def subtreesOf : List Tree → List Tree
  | [] => []
  | tree :: rest => subtrees tree ++ subtreesOf rest

end

/-- The nodes below the root. -/
def inner (tree : Tree) : List Tree := subtreesOf tree.children

theorem subtrees_eq (tree : Tree) : tree.subtrees = tree :: tree.inner := by
  cases tree with
  | node => rw [subtrees]; rfl

/-- The children of a node lie inside it, and each of them stops before the next ones start. -/
structure HoldsChildren (tree : Tree) : Prop where
  inside : ∀ child ∈ tree.children,
    tree.info.start ≤ child.info.start ∧ child.info.stop ≤ tree.info.stop
  ordered : tree.children.Pairwise fun a b => a.info.stop ≤ b.info.start

/-- The spans of a tree lie in one another like its nodes, they start and stop between characters of
the source, and no node of the kind of an identifier is below another one. -/
structure IsLaidOut (source : Text) (tree : Tree) : Prop where
  holds : ∀ t ∈ tree.subtrees, t.HoldsChildren
  bounded : ∀ t ∈ tree.subtrees,
    (∃ first, source.IsBoundary t.info.start first) ∧ ∃ last, source.IsBoundary t.info.stop last
  apart : ∀ t ∈ tree.subtrees, t.info.kind.isCandidate → ∀ s ∈ t.inner, ¬s.info.kind.isCandidate

instance (tree : Tree) : Decidable tree.HoldsChildren :=
  decidable_of_iff (_ ∧ _) ⟨fun h => ⟨h.1, h.2⟩, fun h => ⟨h.inside, h.ordered⟩⟩

instance (source : Text) (tree : Tree) : Decidable (tree.IsLaidOut source) :=
  decidable_of_iff (_ ∧ _ ∧ _)
    ⟨fun h => ⟨h.1, h.2.1, h.2.2⟩, fun h => ⟨h.holds, h.bounded, h.apart⟩⟩

mutual

/-- All that is below a node lies inside it. -/
theorem subtrees_inside : (tree : Tree) → (∀ t ∈ tree.subtrees, t.HoldsChildren) →
    ∀ s ∈ tree.subtrees, tree.info.start ≤ s.info.start ∧ s.info.stop ≤ tree.info.stop
  | node info children, h => by
    intro s hs
    rw [subtrees_eq] at h hs
    obtain ⟨hroot, hbelow⟩ := List.forall_mem_cons.1 h
    rcases List.mem_cons.1 hs with rfl | hs
    · exact ⟨Nat.le_refl _, Nat.le_refl _⟩
    · obtain ⟨child, hchild, hstart, hstop⟩ := subtreesOf_inside children hbelow s hs
      obtain ⟨hfirst, hlast⟩ := hroot.inside child hchild
      exact ⟨Nat.le_trans hfirst hstart, Nat.le_trans hstop hlast⟩

theorem subtreesOf_inside : (trees : List Tree) → (∀ t ∈ subtreesOf trees, t.HoldsChildren) →
    ∀ s ∈ subtreesOf trees, ∃ child ∈ trees,
      child.info.start ≤ s.info.start ∧ s.info.stop ≤ child.info.stop
  | [], _ => by simp [subtreesOf]
  | tree :: rest, h => by
    intro s hs
    rw [subtreesOf] at h hs
    obtain ⟨htree, hrest⟩ := List.forall_mem_append.1 h
    rcases List.mem_append.1 hs with hs | hs
    · exact ⟨tree, List.mem_cons_self, subtrees_inside tree htree s hs⟩
    · obtain ⟨child, hchild, hspan⟩ := subtreesOf_inside rest hrest s hs
      exact ⟨child, List.mem_cons_of_mem _ hchild, hspan⟩

end

/-- A node lies below an earlier one, or starts where that one has stopped or later. -/
def IsInnerOrAfter (earlier later : Tree) : Prop :=
  later ∈ earlier.inner ∨ earlier.info.stop ≤ later.info.start

mutual

theorem pairwise_subtrees : (tree : Tree) → (∀ t ∈ tree.subtrees, t.HoldsChildren) →
    tree.subtrees.Pairwise IsInnerOrAfter
  | node info children, h => by
    rw [subtrees_eq] at h ⊢
    obtain ⟨hroot, hbelow⟩ := List.forall_mem_cons.1 h
    exact List.pairwise_cons.2
      ⟨fun _ hs => .inl hs, pairwise_subtreesOf children hbelow hroot.ordered⟩

theorem pairwise_subtreesOf : (trees : List Tree) → (∀ t ∈ subtreesOf trees, t.HoldsChildren) →
    (trees.Pairwise fun a b => a.info.stop ≤ b.info.start) →
    (subtreesOf trees).Pairwise IsInnerOrAfter
  | [], _, _ => by simp [subtreesOf]
  | tree :: rest, h, hordered => by
    rw [subtreesOf] at h ⊢
    obtain ⟨htree, hrest⟩ := List.forall_mem_append.1 h
    obtain ⟨hfirst, hothers⟩ := List.pairwise_cons.1 hordered
    refine List.pairwise_append.2
      ⟨pairwise_subtrees tree htree, pairwise_subtreesOf rest hrest hothers, ?_⟩
    intro a ha b hb
    obtain ⟨-, hstop⟩ := subtrees_inside tree htree a ha
    obtain ⟨child, hchild, hstart, -⟩ := subtreesOf_inside rest hrest b hb
    have hgap := hfirst child hchild
    exact .inr (by omega)

end

mutual

/-- The nodes that are reached are nodes of the tree, in its order. -/
theorem map_gather_sublist (outer : List Tree) : (tree : Tree) →
    ((tree.gather (fun n => [n]) outer).map (·.tree)).Sublist tree.subtrees
  | node info children => by
    rw [gather, subtrees]
    split_ifs
    · exact List.nil_sublist _
    · rw [List.map_append]
      exact (map_gatherAll_sublist (node info children :: outer) children).cons_cons _

theorem map_gatherAll_sublist (outer : List Tree) : (trees : List Tree) →
    ((gatherAll (fun n => [n]) outer trees).map (·.tree)).Sublist (subtreesOf trees)
  | [] => by
    rw [gatherAll]
    exact List.nil_sublist _
  | tree :: rest => by
    rw [gatherAll, subtreesOf, List.map_append]
    exact (map_gather_sublist outer tree).append (map_gatherAll_sublist outer rest)

end

end Tree

/-! ### Occurrences -/

namespace SourceUnit

variable {source : Text} {u : SourceUnit}

theorem start_lt_stop_of_text_ne_nil {tree : Tree} (h : u.text tree ≠ []) :
    tree.info.start < tree.info.stop := by
  by_contra hle
  refine h ?_
  have hnone : (u.before tree.info.stop).drop tree.info.start = [] :=
    List.drop_eq_nil_of_le (by simp only [before, List.length_take]; omega)
  rw [text, hnone]
  rfl

/-- An occurrence has the place of its node, an identifier with a text. -/
theorem of_mem_ownOccurrence {usages : UsageIndex} {n : Node} {o : Occurrence}
    (h : o ∈ (u.ownOccurrence? usages n).toList) :
    n.kind.isCandidate ∧ n.tree.info.start < n.tree.info.stop ∧
      o.position = u.positionAt n.tree.info.start := by
  rw [ownOccurrence?] at h
  split_ifs at h with hbears
  · obtain rfl := List.mem_singleton.1 h
    simp only [bearsValue, Bool.and_eq_true, decide_eq_true_eq] at hbears
    exact ⟨hbears.1.1.1, start_lt_stop_of_text_ne_nil hbears.2, rfl⟩
  · exact absurd h List.not_mem_nil

/-- The places of the occurrences rise, however far the walk comes. -/
theorem pairwise_occurrences (hbytes : Utf8.encode source = .ok u.bytes)
    (hlayout : u.tree.IsLaidOut source) :
    u.occurrences.Pairwise fun o o' => o.position.before o'.position := by
  have hsource := Utf8.hasSurrogate_of_encode_eq_ok hbytes
  have hwritten : u.bytes = Utf8.written source :=
    Except.ok.inj (hbytes.symm.trans (Utf8.encode_eq_ok hsource))
  have hsublist := Tree.map_gather_sublist [] u.tree
  have hmem (n : Node) (hn : n ∈ u.reached) : n.tree ∈ u.tree.subtrees :=
    hsublist.subset (List.mem_map_of_mem hn)
  have hreached : u.reached.Pairwise fun n m => Tree.IsInnerOrAfter n.tree m.tree :=
    List.pairwise_map.1 ((Tree.pairwise_subtrees u.tree hlayout.holds).sublist hsublist)
  rw [occurrences, found_trace, visited, ownOccurrences, List.pairwise_flatMap]
  have hread := u.reached.takeWhile_sublist fun n => decide ¬u.IsUnreadable n
  refine ⟨fun n _ => ?_, (hreached.sublist hread).imp_of_mem ?_⟩
  · cases u.ownOccurrence? (UsageIndex.ofUnit u) n <;> simp
  · intro n m hn hm horder o ho o' ho'
    replace hn := hmem n (hread.subset hn)
    replace hm := hmem m (hread.subset hm)
    obtain ⟨hkind, hspan, hplace⟩ := of_mem_ownOccurrence ho
    obtain ⟨hkind', -, hplace'⟩ := of_mem_ownOccurrence ho'
    obtain ⟨⟨first, hfirst⟩, -⟩ := hlayout.bounded _ hn
    obtain ⟨⟨first', hfirst'⟩, -⟩ := hlayout.bounded _ hm
    rw [hplace, hplace']
    refine positionAt_before hsource hwritten hfirst hfirst' ?_
    rcases horder with hbelow | hafter
    · exact absurd hkind' (hlayout.apart _ hn hkind _ hbelow)
    · omega

end SourceUnit

end TypeBench
