import TypeBench.Position
import TypeBench.Tree.Node

/-!
# Source units

A source unit is a byte sequence with its syntax tree. Spans are counted in bytes, and text and
columns in characters, where a malformed stretch of bytes is one character.

## Main definitions

* `SourceUnit`: bytes and tree.
* `SourceUnit.text`: the text of a node.
* `SourceUnit.position`: the line and column of a node, or why they cannot be read.
-/

namespace TypeBench

/-- A byte sequence and its syntax tree. -/
structure SourceUnit where
  bytes : Bytes
  tree : Tree

namespace SourceUnit

/-- The bytes before an index. -/
def before (u : SourceUnit) (index : Nat) : Bytes := u.bytes.take index

/-- The byte that ends a line. -/
def newline : UInt8 := 10

/-- The text of a node. -/
def text (u : SourceUnit) (tree : Tree) : Text :=
  Utf8.decodeLossy ((u.before tree.info.stop).drop tree.info.start)

/-- The number of line ends before an index. -/
def row (u : SourceUnit) (index : Nat) : Nat := (u.before index).count newline

/-- The number of bytes between an index and the line end before it. -/
def byteColumn (u : SourceUnit) (index : Nat) : Nat :=
  ((u.before index).reverse.takeWhile (· ≠ newline)).length

/-- The bytes of the line of an index, up to the index. -/
def lineBefore (u : SourceUnit) (index : Nat) : Bytes :=
  (u.before index).drop (index - u.byteColumn index)

/-- The place of an index. -/
def positionAt (u : SourceUnit) (index : Nat) : SourcePosition where
  line := u.row index + 1
  column := (Utf8.decodeLossy (u.lineBefore index)).length

/-- The place of a node, or why it cannot be read. -/
def position (u : SourceUnit) (tree : Tree) : Except Text SourcePosition :=
  match tree.info.unreadable with
  | some reason => .error reason
  | none => .ok (u.positionAt tree.info.start)

end SourceUnit

end TypeBench
