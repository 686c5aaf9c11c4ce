import TypeBench.Proofs.Tree.Nodes

/-!
# Nodes told apart by kind and span

Whether a node fills a field of its parent is asked by comparing it with the child that does, and
two nodes are taken for the same if they agree in kind and span. Where no two children of a node
have a byte in common, a child that has some is taken for no other child, so the answer is right,
also if several children have one kind and one text. So just the names of declarations are passed
over, and just objects, callees and targets of assignments have a usage.

## Main definitions

* `Tree.HasDisjointChildren`: nodes whose children have no byte in common.
* `Tree.IsFirstIn`: the first child that fills a field, told by its number.

## Main results

* `Tree.eq_of_sameNode`: a child that has bytes is taken for no other child.
* `Tree.isChild_iff`: the first child that fills a field is recognised.
* `SourceUnit.roles_exact`: which nodes are names of declarations, and which have a usage.
-/

namespace TypeBench

namespace Tree

/-! ### Children -/

/-- Whether a byte belongs to a node. -/
def Covers (tree : Tree) (index : Nat) : Prop := tree.info.start ≤ index ∧ index < tree.info.stop

/-- No two children of a node have a byte in common. -/
def HasDisjointChildren (tree : Tree) : Prop :=
  tree.children.Pairwise fun a b => ∀ index, ¬(a.Covers index ∧ b.Covers index)

/-- The child of a number is the first one that fills a field. -/
structure IsFirstIn (tree : Tree) (field : Text) (i : Nat) : Prop where
  fills : ∃ child, tree.children[i]? = some child ∧ child.info.field = some field
  first : ∀ j < i, ∀ child, tree.children[j]? = some child → child.info.field ≠ some field

variable {tree a b : Tree} {i j : Nat}

/-- Children that stop before the next ones start have no byte in common. -/
theorem HoldsChildren.hasDisjointChildren (h : tree.HoldsChildren) : tree.HasDisjointChildren := by
  refine h.ordered.imp fun hgap index => ?_
  rintro ⟨⟨-, hstop⟩, ⟨hstart, -⟩⟩
  omega

/-- A child that has bytes is taken for no other child. -/
theorem eq_of_sameNode (h : tree.HasDisjointChildren) (ha : tree.children[i]? = some a)
    (hb : tree.children[j]? = some b) (hspan : b.info.start < b.info.stop)
    (hsame : a.sameNode b = true) : i = j := by
  simp only [sameNode, Bool.and_eq_true, decide_eq_true_eq] at hsame
  obtain ⟨⟨-, hstart⟩, hstop⟩ := hsame
  have hfirst : a.Covers b.info.start ∧ b.Covers b.info.start := by
    rw [Covers, Covers, hstart, hstop]
    exact ⟨⟨Nat.le_refl _, hspan⟩, Nat.le_refl _, hspan⟩
  obtain ⟨hi, rfl⟩ := List.getElem?_eq_some_iff.1 ha
  obtain ⟨hj, rfl⟩ := List.getElem?_eq_some_iff.1 hb
  rcases Nat.lt_trichotomy i j with hlt | heq | hlt
  · exact absurd hfirst (List.pairwise_iff_getElem.1 h i j hi hj hlt _)
  · exact heq
  · exact absurd hfirst.symm (List.pairwise_iff_getElem.1 h j i hj hi hlt _)

/-- The child that is looked up is the first one that fills the field. -/
theorem child?_eq_some_iff {field : Text} :
    tree.child? field = some a ↔ ∃ i, tree.children[i]? = some a ∧ tree.IsFirstIn field i := by
  rw [child?, List.find?_eq_some_iff_getElem]
  constructor
  · rintro ⟨hfield, i, hi, rfl, hfirst⟩
    have hchild := List.getElem?_eq_getElem hi
    refine ⟨i, hchild, ⟨_, hchild, of_decide_eq_true hfield⟩, fun j hj child hother => ?_⟩
    obtain ⟨_, rfl⟩ := List.getElem?_eq_some_iff.1 hother
    have hunfilled := hfirst j hj
    rw [Bool.not_eq_true'] at hunfilled
    exact of_decide_eq_false hunfilled
  · rintro ⟨i, ha, ⟨child, hchild, hfield⟩, hfirst⟩
    obtain rfl := Option.some.inj (hchild.symm.trans ha)
    obtain ⟨hi, hget⟩ := List.getElem?_eq_some_iff.1 ha
    refine ⟨decide_eq_true hfield, i, hi, hget, fun j hj => ?_⟩
    rw [Bool.not_eq_true']
    exact decide_eq_false (hfirst j hj _ (List.getElem?_eq_getElem _))

/-- The first child that fills a field is recognised, and no other one is taken for it. -/
theorem isChild_iff (h : tree.HasDisjointChildren) (hb : tree.children[i]? = some b)
    (hspan : b.info.start < b.info.stop) (field : Text) :
    tree.isChild field b = true ↔ tree.IsFirstIn field i := by
  rw [isChild]
  constructor
  · intro hchild
    cases hfound : tree.child? field with
    | none =>
      rw [hfound] at hchild
      cases hchild
    | some a =>
      rw [hfound] at hchild
      obtain ⟨j, ha, hfirst⟩ := child?_eq_some_iff.1 hfound
      exact eq_of_sameNode h ha hb hspan hchild ▸ hfirst
  · intro hfirst
    rw [child?_eq_some_iff.2 ⟨i, hb, hfirst⟩]
    simp [sameNode]

end Tree

/-! ### Nodes -/

theorem Node.parent?_of_mem_children {p n : Node} (h : n ∈ p.children) : n.parent? = some p := by
  obtain ⟨child, -, rfl⟩ := List.mem_map.1 h
  rfl

theorem Node.getElem?_children {p n : Node} {i : Nat} (h : p.children[i]? = some n) :
    p.tree.children[i]? = some n.tree := by
  rw [children, List.getElem?_map, Option.map_eq_some_iff] at h
  obtain ⟨child, hchild, rfl⟩ := h
  exact hchild

theorem Tree.tree_mem_subtrees {tree : Tree} {n : Node} (h : n ∈ nodes [] tree) :
    n.tree ∈ tree.subtrees := by
  rw [← map_tree_nodes []]
  exact List.mem_map_of_mem h

theorem NodeKind.isDeclaration_iff {kind : NodeKind} : kind.isDeclaration = true ↔
    kind = classDeclaration ∨ kind = functionDeclaration ∨ kind = generatorDeclaration := by
  simp [isDeclaration, isFunctionDeclaration]

theorem NodeKind.ne_of_isAssignment {kind other : NodeKind} (h : kind.isAssignment = true)
    (hother : other.isAssignment = false) : kind ≠ other := by
  rintro rfl
  rw [h] at hother
  cases hother

namespace SourceUnit

/-- How a child uses its identifier, by its number: the first object of a member expression that
names a property, the first callee of a call, and the first target of an assignment. -/
inductive UsedAs (u : SourceUnit) (parent : Tree) (i : Nat) : Usage → Prop
  | object {property : Tree} (hkind : parent.info.kind = NodeKind.memberExpression)
      (hfirst : parent.IsFirstIn "object" i) (hproperty : parent.child? "property" = some property)
      (hname : property.info.kind.isProperty = true) :
      UsedAs u parent i (.property (u.text property))
  | callee {arguments : Tree} (hkind : parent.info.kind = NodeKind.callExpression)
      (hfirst : parent.IsFirstIn "function" i)
      (harguments : parent.child? "arguments" = some arguments)
      (hlist : arguments.info.kind = NodeKind.arguments) :
      UsedAs u parent i (.call (arguments.children.countP fun child =>
        child.info.isNamed && child.info.kind ≠ NodeKind.comment))
  | target (hkind : parent.info.kind.isAssignment = true) (hfirst : parent.IsFirstIn "left" i) :
      UsedAs u parent i .assignmentTarget

variable {u : SourceUnit} {p n : Node} {i : Nat}

theorem isDeclarationName_iff (hparent : n.parent? = some p)
    (hchild : ∀ field, p.tree.isChild field n.tree = true ↔ p.tree.IsFirstIn field i) :
    isDeclarationName n = true ↔
      p.kind.isDeclaration = true ∧ p.tree.IsFirstIn "name" i := by
  rw [isDeclarationName, hparent, Option.any_some, Bool.and_eq_true, hchild]

/-- A child has the usages of its role in the parent. -/
theorem usage?_eq_some_iff (hparent : n.parent? = some p)
    (hchild : ∀ field, p.tree.isChild field n.tree = true ↔ p.tree.IsFirstIn field i)
    (usage : Usage) : u.usage? n = some usage ↔ u.UsedAs p.tree i usage := by
  rw [usage?, hparent, Option.bind_some]
  simp only [Bool.and_eq_true, decide_eq_true_eq]
  constructor
  · intro h
    split_ifs at h with hmember hcall hassignment
    · obtain ⟨property, hproperty, hlabel⟩ := Option.bind_eq_some_iff.1 h
      split_ifs at hlabel with hname
      obtain rfl := Option.some.inj hlabel
      exact .object hmember.1 ((hchild _).1 hmember.2) hproperty hname
    · obtain ⟨arguments, harguments, hlabel⟩ := Option.bind_eq_some_iff.1 h
      split_ifs at hlabel with hlist
      obtain rfl := Option.some.inj hlabel
      exact .callee hcall.1 ((hchild _).1 hcall.2) harguments hlist
    · obtain rfl := Option.some.inj h
      exact .target hassignment.1 ((hchild _).1 hassignment.2)
  · intro h
    cases h with
    | object hkind hfirst hproperty hname =>
      rw [if_pos ⟨hkind, (hchild _).2 hfirst⟩, property?, hproperty, Option.bind_some,
        if_pos hname]
    | callee hkind hfirst harguments hlist =>
      have hmember : p.kind ≠ NodeKind.memberExpression := by
        intro hmember
        exact absurd (hmember.symm.trans hkind) (by decide)
      rw [if_neg fun h => hmember h.1, if_pos ⟨hkind, (hchild _).2 hfirst⟩, arguments?,
        harguments, Option.bind_some, if_pos hlist]
    | target hkind hfirst =>
      have hmember : p.kind ≠ NodeKind.memberExpression :=
        NodeKind.ne_of_isAssignment hkind (by decide)
      have hcall : p.kind ≠ NodeKind.callExpression :=
        NodeKind.ne_of_isAssignment hkind (by decide)
      rw [if_neg fun h => hmember h.1, if_neg fun h => hcall h.1,
        if_pos ⟨hkind, (hchild _).2 hfirst⟩]

variable (u)

/-- **Nodes are told apart.** In a tree where no two children of a node have a byte in common, a
node that has some is taken for the first child that fills a field of its parent if and only if it
is that child. So of the identifiers just the names of declarations are passed over for their place,
and just objects, callees and targets have a usage, each that of its parent. -/
theorem roles_exact (hdisjoint : ∀ t ∈ u.tree.subtrees, t.HasDisjointChildren) {p n : Node}
    {i : Nat} (hp : p ∈ Tree.nodes [] u.tree) (hn : p.children[i]? = some n)
    (hspan : n.tree.info.start < n.tree.info.stop) :
    n.parent? = some p ∧
    (∀ field, p.tree.isChild field n.tree = true ↔ p.tree.IsFirstIn field i) ∧
    (isDeclarationName n = true ↔
      (p.kind = NodeKind.classDeclaration ∨ p.kind = NodeKind.functionDeclaration ∨
        p.kind = NodeKind.generatorDeclaration) ∧ p.tree.IsFirstIn "name" i) ∧
    (u.bearsValue n = true ↔ n.kind.isCandidate = true ∧ n.tree.info.isMissing = false ∧
      u.text n.tree ≠ [] ∧ ¬(p.kind.isDeclaration = true ∧ p.tree.IsFirstIn "name" i)) ∧
    ∀ usage, u.usage? n = some usage ↔ u.UsedAs p.tree i usage := by
  have hparent : n.parent? = some p := Node.parent?_of_mem_children (List.mem_of_getElem? hn)
  have htree : p.tree.children[i]? = some n.tree := Node.getElem?_children hn
  have hchild (field : Text) := Tree.isChild_iff (hdisjoint _ (Tree.tree_mem_subtrees hp)) htree
    hspan field
  have hname := isDeclarationName_iff hparent hchild
  refine ⟨hparent, hchild, ?_, ?_, usage?_eq_some_iff hparent hchild⟩
  · rw [hname, NodeKind.isDeclaration_iff]
  · rw [← hname, bearsValue]
    simp only [Bool.and_eq_true, Bool.not_eq_true', decide_eq_true_eq, Bool.not_eq_true]
    tauto

/-- The source `a=a`, an assignment of an identifier to itself. -/
def selfAssignment : SourceUnit where
  bytes := [97, 61, 97]
  tree := .node (sampleInfo "program" 0 3 none)
    [.node (sampleInfo "assignment_expression" 0 3 none)
      [.node (sampleInfo "identifier" 0 1 (some "left")) [],
        .node { sampleInfo "=" 1 2 none with isNamed := false } [],
        .node (sampleInfo "identifier" 2 3 (some "right")) []]]

/-- Of the two identifiers only the left one is the target. -/
theorem roles_exact_selfAssignment :
    (∀ t ∈ selfAssignment.tree.subtrees, t.HasDisjointChildren) ∧
    ∃ p ∈ Tree.nodes [] selfAssignment.tree, ∃ left right,
      p.children[0]? = some left ∧ p.children[2]? = some right ∧
      left.tree.info.start < left.tree.info.stop ∧ right.tree.info.start < right.tree.info.stop ∧
      selfAssignment.text left.tree = selfAssignment.text right.tree ∧
      selfAssignment.usage? left = some .assignmentTarget ∧
      selfAssignment.usage? right ≠ some .assignmentTarget := by
  have hdisjoint : ∀ t ∈ selfAssignment.tree.subtrees, t.HasDisjointChildren := by
    have hholds : ∀ t ∈ selfAssignment.tree.subtrees, t.HoldsChildren := by decide
    exact fun t ht => (hholds t ht).hasDisjointChildren
  have hp : Node.mk _ [selfAssignment.tree] ∈ Tree.nodes [] selfAssignment.tree :=
    List.mem_cons_of_mem _ List.mem_cons_self
  obtain ⟨-, -, -, -, hleft⟩ := roles_exact selfAssignment hdisjoint (i := 0) hp rfl (by decide)
  obtain ⟨-, -, -, -, hright⟩ := roles_exact selfAssignment hdisjoint (i := 2) hp rfl (by decide)
  refine ⟨hdisjoint, _, hp, _, _, rfl, rfl, by decide, by decide, by decide, ?_, fun htarget => ?_⟩
  · exact (hleft _).2 (.target rfl ⟨⟨_, rfl, rfl⟩, nofun⟩)
  · cases (hright _).1 htarget with
    | target _ hfirst => exact hfirst.first 0 (by decide) _ rfl rfl

end SourceUnit

end TypeBench
