import TypeBench.Text.Quoted
import TypeBench.Text.Utf8

/-!
# Paths

A path is a root and a list of names. Reading a path drops empty names and the name `.`; the name
`..` is kept, since what it leads to depends on the files.

## Main definitions

* `Path`: the paths; `Path.ofText` and `Path.text` read and write them.
* `Path.name`, `Path.parent`: the last name, and the path without it.
* `Path.join`: a path read from another one; one with a root replaces it.
* `Path.isUsable`: whether the system takes a text for a path.

## Main results

* `Path.join_eq_of_rooted`: joining a rooted path gives that path.
-/

namespace TypeBench

/-- A path: nothing, one slash or two slashes at its start, and names. -/
structure Path where
  slashes : Nat
  names : List Text
  deriving DecidableEq

namespace Path

/-- The number of slashes that the root of a text with `count` leading slashes keeps: exactly two
are a root of their own, and any other number counts as one. -/
def rootSlashes (count : Nat) : Nat :=
  if count = 2 then 2 else min count 1

/-- The path that a text writes. -/
def ofText (t : Text) : Path :=
  { slashes := rootSlashes (t.takeWhile fun c : CodePoint => c = '/').length
    names := (t.splitOnPoint '/').filter fun name => name ≠ [] && name ≠ Text.ofString "." }

/-- The text of a path; the path of no name is a point. -/
def text (p : Path) : Text :=
  if p.slashes = 0 ∧ p.names = [] then "."
  else Text.fill p.slashes '/' ++ Text.join "/" p.names

/-- The last name of a path, empty if there is none. -/
def name (p : Path) : Text :=
  p.names.getLast?.getD []

/-- The path without its last name. -/
def parent (p : Path) : Path :=
  { p with names := p.names.dropLast }

/-- A path read from another one. -/
def join (base p : Path) : Path :=
  if p.slashes = 0 then { base with names := base.names ++ p.names } else p

theorem join_eq_of_rooted (base p : Path) (h : p.slashes ≠ 0) : base.join p = p := by
  simp [join, h]

@[simp] theorem join_of_names (base : Path) (names : List Text) :
    base.join ⟨0, names⟩ = ⟨base.slashes, base.names ++ names⟩ := rfl

/-! ### Bytes -/

/-- A surrogate that stands for a byte above `0x7F`, as in a name that is no text. -/
def isEscapedByte (c : CodePoint) : Bool :=
  0xDC80 ≤ c.val && c.val ≤ 0xDCFF

/-- The bytes of a code point of a path. -/
def pointBytes (c : CodePoint) : Bytes :=
  if isEscapedByte c then [UInt8.ofNat (c.val - 0xDC00)] else Utf8.encodePoint c

/-- The number of bytes of a text in a path. -/
def byteLength (t : Text) : Nat := (t.flatMap pointBytes).length

/-- The first run of surrogates, from one that stands for no byte on, in a text whose first code
point has position `start`. -/
def strayRunFrom (start : Nat) : Text → Option Utf8.SurrogateRun
  | [] => none
  | c :: rest =>
    if c.isSurrogate && !isEscapedByte c then
      some ⟨c, start, 1 + (rest.takeWhile CodePoint.isSurrogate).length⟩
    else strayRunFrom (start + 1) rest

/-- Whether a text has a NUL, which no path has. -/
def hasNul (t : Text) : Bool := t.any fun c : CodePoint => c.val == 0

/-- Whether the system takes a text for a path. -/
def isUsable (t : Text) : Bool := (strayRunFrom 0 t).isNone && !hasNul t

end Path

end TypeBench
