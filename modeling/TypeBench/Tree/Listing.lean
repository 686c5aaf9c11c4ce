import TypeBench.Tree.Basic

/-!
# Trees as listings

A tree is written as the list of its nodes, each before its children, with the index of its
parent.

## Main definitions

* `Tree.Entry`: a node and the index of its parent.
* `Tree.ofListing?`: the tree that a listing writes.
-/

namespace TypeBench.Tree

/-- A node of a listing; the root has no parent. -/
structure Entry where
  info : NodeInfo
  parent : Option Nat

/-- The trees that a listing from an index on writes, each with the index of its parent. A node
takes the trees after it whose parent it is. -/
def ofEntries (index : Nat) : List Entry → List (Option Nat × Tree)
  | [] => []
  | entry :: rest =>
    let (own, others) := (ofEntries (index + 1) rest).partition fun found => found.1 = some index
    (entry.parent, node entry.info (own.map (·.2))) :: others

/-- The tree that a listing writes. -/
def ofListing? (listing : List Entry) : Option Tree :=
  (ofEntries 0 listing).head?.map (·.2)

end TypeBench.Tree
