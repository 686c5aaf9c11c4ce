import TypeBench.Command.Execution
import TypeBench.Json.Reader
import TypeBench.Tree.Document

/-!
# Surroundings from files

All that a command needs to know of other languages can stand in files beside its own. A
configuration is read as JSON, which is part of YAML, and the syntax trees of sources stand in a
file of documents, each with its source.

## Main definitions

* `FileTree.yaml`: the reader of configurations.
* `FileTree.parser`: the parser that looks syntax trees up.
* `Command.variables`: the variables that a command refers to.
-/

namespace TypeBench

namespace FileTree

/-- The document in a file. -/
def document? (files : FileTree) (place : FilePlace) : Option Json :=
  match files.at? place with
  | some (.file bytes) => (Utf8.decode? bytes).bind fun text => (Json.read text).toOption
  | _ => none

/-- The reader of configurations that are written in JSON. -/
def yaml (files : FileTree) : YamlReader := fun place =>
  match files.document? place with
  | some document => .value document.toValue
  | none => .malformed "not in JSON"

/-- The file of syntax trees. -/
def treesFile : FilePlace := .ofNames ["trees.json"]

/-- The tree in an entry of the file of syntax trees, if it is that of a source. -/
def treeIn? (source : Text) (entry : Json) : Option Tree :=
  match entry.member? "source", entry.member? "nodes" with
  | some (.text found), some nodes => if found = source then Tree.ofDocument? nodes else none
  | _, _ => none

/-- The syntax tree of a source. -/
def tree? (files : FileTree) (source : Text) : Option Tree :=
  match files.document? treesFile with
  | some (.array entries) => entries.findSome? (treeIn? source)
  | _ => none

/-- The parser that looks the tree of a source up. -/
def parser (files : FileTree) : SourceParser where
  ready := .ok ()
  parse source :=
    match Utf8.encode source, files.tree? source with
    | .error run, _ => .error (.unencodable run)
    | .ok bytes, some tree => .ok ⟨bytes, tree⟩
    | .ok _, none => .error (.raised "no syntax tree for the source")

end FileTree

/-- The variables that a command refers to. -/
def Command.variables (files : FileTree) : Command → List Text
  | .run config _ _ =>
    match EvalConfig.read files files.yaml config with
    | .ok value => (value.references.map (·.name)).eraseDups
    | .error _ => []
  | _ => []

end TypeBench
