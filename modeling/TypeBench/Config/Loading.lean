import TypeBench.Config.Basic
import TypeBench.Config.Event
import TypeBench.Config.Interpolation
import TypeBench.Failure

/-!
# Loading a configuration

A configuration is a file in YAML. Its references to variables are replaced before it is read as a
configuration; missing variables are reported before anything else that is wrong with its content.

## Main definitions

* `YamlReading`, `YamlReader`: what a YAML reader makes of a file.
* `EvalConfig.read`: the value in a file.
* `EvalConfig.ofValue`: the configuration that a value writes.
* `ConfigLoading`, `EvalConfig.load`: the outcome of loading and its events.
-/

namespace TypeBench

/-- What a YAML reader makes of a file: a value, a complaint, nothing because the bytes that it came
to are no text, or a failure that it has no complaint for, such as a date that there is not. A
mapping that holds itself is no value: it is read, but going through it fails in the same way. -/
inductive YamlReading where
  | value (value : Value)
  | malformed (complaint : Text)
  | undecodable
  | failed (message : Text)

/-- A YAML reader, as a function of the place of a file. -/
abbrev YamlReader := FilePlace → YamlReading

/-- The outcome of loading, and what happened on the way. -/
structure ConfigLoading where
  outcome : Except Failure EvalConfig
  events : List ConfigEvent

namespace EvalConfig

/-- Text files are read in blocks of this size. -/
def blockSize : Nat := 8192

/-- The failure for a fault of a configuration file: one that is not there is expected. -/
def fileFailure (path : Path) (fault : FileFault) : Failure :=
  match fault with
  | .missing => .bench (.unreadableConfig path BenchError.fileNotFound)
  | _ => .file path fault

/-- The failure for bytes that are no text. -/
def decodingFailure (bytes : Bytes) : Failure :=
  match Utf8.firstFaultInBlocks blockSize bytes with
  | some fault => .undecodable fault
  | none => .raised []

/-- The value in a configuration file; an empty file holds the null value. -/
def read (files : FileTree) (yaml : YamlReader) (path : Path) : Except Failure Value :=
  match files.lookUp path with
  | .error fault => .error (fileFailure path fault)
  | .ok (_, .file []) => .ok .null
  | .ok (place, .file bytes) =>
    match yaml place with
    | .value value => .ok value
    | .malformed complaint =>
      .error (.bench (.unreadableConfig path ("invalid YAML (" ++ complaint ++ ")")))
    | .undecodable => .error (decodingFailure bytes)
    | .failed message => .error (.raised message)
  | .ok (_, .directory) => .error (.file path .isDirectory)

/-- The reason for a value that is no mapping. -/
def notMappingReason : Text := "top-level YAML value must be a mapping"

/-- The configuration that a mapping with its references replaced writes. -/
def ofMapping (value : Value) : Except Failure EvalConfig :=
  ((check value).report recordName).mapError fun report => .bench (.violatedConfig report)

/-- The configuration that a value writes in an environment. -/
def ofValue (env : Environment) (value : Value) : Except Failure EvalConfig :=
  match value with
  | .map _ =>
    match value.missingVariables env with
    | [] => do ofMapping (← (value.interpolate env).mapError .unknownVariable)
    | missing => .error (.bench (.missingVariables missing))
  | _ => .error (.bench (.invalidConfig notMappingReason))

/-- The events of a configuration that is loaded: a warning for each approach that draws at random
without a seed, and then the loading. -/
def events (config : EvalConfig) : List ConfigEvent :=
  (config.approaches.filter fun (_, approach) => approach.isUnseeded).map
      (fun (name, _) => .unseeded name) ++
    [.loaded config.name config.version]

/-- Loading the configuration at a path. -/
def load (files : FileTree) (yaml : YamlReader) (env : Environment) (path : Path) :
    ConfigLoading :=
  match (read files yaml path).bind (ofValue env) with
  | .ok config => ⟨.ok config, config.events⟩
  | .error failure => ⟨.error failure, []⟩

end EvalConfig

end TypeBench
