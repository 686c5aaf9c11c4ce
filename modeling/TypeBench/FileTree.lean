import TypeBench.Path

/-!
# Files

The files that a command can see are a list of entries, each a file with its bytes or a directory
at its place. A place is given by names from the working directory, or from a directory that is
known to stand: one above the working directory, or the root. Whatever lies on the way to an entry
is a directory.

## Main definitions

* `FileAnchor`, `FilePlace`: directories that stand, and places.
* `FileTree`: the entries.
* `FileTree.locate`: the place that a path leads to.
* `FileTree.read`, `FileTree.listing`, `FileTree.makeDirectory`, `FileTree.write`: the operations
  on files, each failing with a `FileFault`.
* `FileTree.changes`: what an operation has changed.
-/

namespace TypeBench

/-- A directory that stands: some levels above the working directory, or the root. -/
inductive FileAnchor where
  | up (levels : Nat)
  | root
  deriving DecidableEq

/-- A place, by its names from a directory that stands. -/
structure FilePlace where
  anchor : FileAnchor
  names : List Text
  deriving DecidableEq

namespace FilePlace

/-- A place in the working directory. -/
def ofNames (names : List Text) : FilePlace := ⟨.up 0, names⟩

/-- The place of a name inside a place. -/
def inside (place : FilePlace) (name : Text) : FilePlace :=
  if name ≠ Text.ofString ".." then { place with names := place.names ++ [name] }
  else if place.names ≠ [] then { place with names := place.names.dropLast }
  else
    match place.anchor with
    | .up levels => ⟨.up (levels + 1), []⟩
    | .root => place

/-- The place around a place. -/
def parent (place : FilePlace) : FilePlace := { place with names := place.names.dropLast }

/-- Whether a place is another one or lies in it. -/
def isBelow (place other : FilePlace) : Bool :=
  place.anchor = other.anchor && other.names.isPrefixOf place.names

/-- The place at which a path starts. -/
def startOf (path : Path) : FilePlace :=
  if path.slashes = 0 then ofNames [] else ⟨.root, []⟩

end FilePlace

/-- What stands at a place. -/
inductive FileEntry where
  | file (bytes : Bytes)
  | directory
  deriving DecidableEq

/-- The entries, each at its place. -/
abbrev FileTree := List (FilePlace × FileEntry)

/-- Why an operation on files fails. The last two are found before the system is asked. -/
inductive FileFault where
  | missing
  | present
  | notDirectory
  | isDirectory
  | longName
  | nulInPath
  | unencodable (run : Utf8.SurrogateRun)
  deriving DecidableEq

namespace FileFault

/-- The number by which a system reports the fault. -/
def number : FileFault → Nat
  | missing => 2
  | present => 17
  | notDirectory => 20
  | isDirectory => 21
  | longName => 36
  | nulInPath | unencodable _ => 0

/-- The words by which a system reports the fault. -/
def words : FileFault → String
  | missing => "No such file or directory"
  | present => "File exists"
  | notDirectory => "Not a directory"
  | isDirectory => "Is a directory"
  | longName => "File name too long"
  | nulInPath => "embedded null byte"
  | unencodable _ => "surrogates not allowed"

/-- Whether the system is not even asked. -/
def isRefusal : FileFault → Bool
  | nulInPath | unencodable _ => true
  | _ => false

/-- The message about a fault at a path. -/
def message (path : Path) (fault : FileFault) : Text :=
  match fault with
  | nulInPath => fault.words
  | unencodable run => run.message
  | _ => "[Errno " ++ Text.ofNat fault.number ++ "] " ++ Text.ofString fault.words ++ ": " ++
      path.text.quoted

end FileFault

namespace FileTree

/-- The longest name, in bytes. -/
def maxNameLength : Nat := 255

/-- The longest path, in bytes. -/
def maxPathLength : Nat := 4095

/-- Whether a name is too long for a file. -/
def isLongName (name : Text) : Bool := maxNameLength < Path.byteLength name

/-- What is wrong with a path by itself. -/
def pathFault? (path : Path) : Option FileFault :=
  match Path.strayRunFrom 0 path.text with
  | some run => some (.unencodable run)
  | none =>
    if Path.hasNul path.text then some .nulInPath
    else if maxPathLength < Path.byteLength path.text then some .longName
    else none

/-- What stands at a place. -/
def at? (files : FileTree) (place : FilePlace) : Option FileEntry :=
  match files.find? fun entry => entry.1 = place with
  | some found => some found.2
  | none =>
    if place.names = [] ∨ files.any (fun entry => entry.1.isBelow place) then some .directory
    else none

/-- Follows names from a place; every name is looked up in a directory. -/
def follow (files : FileTree) (place : FilePlace) : List Text → Except FileFault FilePlace
  | [] => .ok place
  | name :: names =>
    match files.at? place with
    | none => .error .missing
    | some (.file _) => .error .notDirectory
    | some .directory =>
      if isLongName name then .error .longName else files.follow (place.inside name) names

/-- The place that a path leads to; nothing need stand there. -/
def locate (files : FileTree) (path : Path) : Except FileFault FilePlace :=
  match pathFault? path with
  | some fault => .error fault
  | none => files.follow (.startOf path) path.names

/-- The place of a path at which something stands, and what it is. -/
def lookUp (files : FileTree) (path : Path) : Except FileFault (FilePlace × FileEntry) := do
  let place ← files.locate path
  match files.at? place with
  | some entry => pure (place, entry)
  | none => throw .missing

/-- The bytes of a file. -/
def read (files : FileTree) (path : Path) : Except FileFault Bytes := do
  match ← files.lookUp path with
  | (_, .file bytes) => pure bytes
  | (_, .directory) => throw .isDirectory

/-- Whether a directory stands at a path. A path that cannot be followed has none, but a name that
is too long is a fault. -/
def isDirectory (files : FileTree) (path : Path) : Except FileFault Bool :=
  match files.lookUp path with
  | .ok (_, .directory) => .ok true
  | .ok (_, .file _) => .ok false
  | .error .longName => .error .longName
  | .error _ => .ok false

/-- The next name of an entry below a place. -/
def childName? (place : FilePlace) (entry : FilePlace × FileEntry) : Option Text :=
  if entry.1.isBelow place then entry.1.names[place.names.length]? else none

/-- The names in the directory at a path, in rising order. -/
def listing (files : FileTree) (path : Path) : Except FileFault (List Text) := do
  match ← files.lookUp path with
  | (_, .file _) => throw .notDirectory
  | (place, .directory) =>
    return (files.filterMap (childName? place)).eraseDups.mergeSort Text.le

/-- Makes a directory in one that stands. A path without a name of its own leads to a directory that
stands already, if it leads anywhere. -/
def makeOne (files : FileTree) (path : Path) : Except FileFault FileTree :=
  match pathFault? path, path.names.getLast? with
  | some fault, _ => .error fault
  | none, none => .error .present
  | none, some name => do
    let place ← files.follow (.startOf path) path.names.dropLast
    let next := place.inside name
    match files.at? place with
    | none => throw .missing
    | some (.file _) => throw .notDirectory
    | some .directory =>
      if isLongName name then throw .longName
      else if name = Text.ofString ".." ∨ files.at? next ≠ none then throw .present
      else return files ++ [(next, .directory)]

/-- The files after directories were made, and the path and the fault at which that ended, if it
failed. -/
abbrev Making := FileTree × Except (Path × FileFault) Unit

/-- Whether a directory stands at a path where a fault has kept one from being made. -/
def settleFault (files : FileTree) (path : Path) (fault : FileFault) : Making :=
  if fault.isRefusal then (files, .error (path, fault))
  else
    match files.isDirectory path with
    | .ok true => (files, .ok ())
    | .ok false => (files, .error (path, fault))
    | .error fault => (files, .error (path, fault))

/-- Makes the directory at a path in one that stands; one that stands already is kept. -/
def makeLast (files : FileTree) (path : Path) : Making :=
  match files.makeOne path with
  | .ok files => (files, .ok ())
  | .error .missing => (files, .error (path, .missing))
  | .error fault => files.settleFault path fault

/-- Makes the directory at a path and those on the way to it; one that stands already is kept. What
was made before a failure stays. -/
def makeDirectory (files : FileTree) (path : Path) : Making :=
  match files.makeOne path with
  | .ok files => (files, .ok ())
  | .error .missing =>
    if path.names = [] then (files, .error (path, .missing))
    else
      match files.makeDirectory path.parent with
      | (files, .ok ()) => files.makeLast path
      | failed => failed
  | .error fault => files.settleFault path fault
termination_by path.names.length
decreasing_by
  rename_i h
  have := List.length_pos_iff.2 h
  simp only [Path.parent, List.length_dropLast]
  omega

/-- The files with an entry at a place, in the stead of one that stands there. -/
def put (files : FileTree) (place : FilePlace) (entry : FileEntry) : FileTree :=
  files.filter (fun found => found.1 ≠ place) ++ [(place, entry)]

/-- Writes a file, in the stead of one that stands at the path. -/
def write (files : FileTree) (path : Path) (bytes : Bytes) : Except FileFault FileTree := do
  let place ← files.locate path
  match files.at? place, files.at? place.parent with
  | some .directory, _ => throw .isDirectory
  | _, none => throw .missing
  | _, some _ => return files.put place (.file bytes)

/-- The entries that are new or different after an operation. -/
def changes (before after : FileTree) : FileTree :=
  after.filter fun entry => entry ∉ before

end FileTree

end TypeBench
