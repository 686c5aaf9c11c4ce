import TypeBench.Json.Basic
import TypeBench.Tree.Listing

/-!
# Trees as documents

A parser outside hands over a tree as a document: the array of its nodes, each before its children.
A node is an array of its kind, its marks, its first byte and the byte after its last one, its
field or null, the index of its parent, and perhaps the reason why its place cannot be read; an
empty reason is none.

## Main definitions

* `Tree.ofDocument?`: the tree that a document writes.
-/

namespace TypeBench.Tree

/-- The natural number of a document; a negative number has none. -/
def natural? : Json → Option Nat
  | .int i => if 0 ≤ i then some i.toNat else none
  | _ => none

/-- The text of a document. -/
def text? : Json → Option Text
  | .text t => some t
  | _ => none

/-- The text of a document, unless it is empty. -/
def nonEmptyText? (j : Json) : Option Text := (text? j).filter fun t => !t.isEmpty

/-- What a node says of itself. The marks are those of named nodes, of missing text and of errors,
as a number of three bits. -/
def infoOf? : List Json → Option NodeInfo
  | kind :: marks :: start :: stop :: field :: _ :: reason => do
    let marks ← natural? marks
    return {
      kind := ← text? kind
      isNamed := marks.testBit 0
      isMissing := marks.testBit 1
      hasError := marks.testBit 2
      start := ← natural? start
      stop := ← natural? stop
      field := text? field
      unreadable := reason.head?.bind nonEmptyText? }
  | _ => none

/-- The entry of a listing that a document writes. -/
def entryOf? : Json → Option Entry
  | .array parts => do return ⟨← infoOf? parts, parts[5]?.bind natural?⟩
  | _ => none

/-- The tree that a document writes. -/
def ofDocument? : Json → Option Tree
  | .array nodes => (nodes.mapM entryOf?).bind ofListing?
  | _ => none

end TypeBench.Tree
