import TypeBench.Validation.Fields

/-!
# Sources of test cases

Test cases are built in, or read from a file of lines or from a directory of files.

## Main definitions

* `CaseSource`: the kinds of sources.
* `CaseSourceConfig`: a source and, for files, its path.
* `CaseSourceConfig.check`: reading a source from a value; a source of files needs a path.
-/

namespace TypeBench

/-- Where test cases come from. -/
inductive CaseSource where
  | samples
  | jsonl
  | directory
  deriving DecidableEq

/-- The names of the sources. -/
def CaseSource.names : List (String × CaseSource) :=
  [("samples", .samples), ("jsonl", .jsonl), ("directory", .directory)]

/-- The name of a source. -/
def CaseSource.name : CaseSource → Text
  | samples => "samples"
  | jsonl => "jsonl"
  | directory => "directory"

/-- A source with its path. -/
structure CaseSourceConfig where
  source : CaseSource
  path : Option Path
  deriving DecidableEq

namespace CaseSourceConfig

/-- The built-in test cases. -/
def default : CaseSourceConfig := ⟨.samples, none⟩

/-- A source other than the built-in one needs a path. -/
def requirePath (config : CaseSourceConfig) : Checked CaseSourceConfig :=
  if config.source ≠ .samples ∧ config.path = none then
    .broken (.pathGiven config.source.name)
  else .valid config

/-- A source, read from a mapping. -/
def check : Value → Checked CaseSourceConfig :=
  Field.record "TestCaseSourceConfig" fun all =>
    (CaseSourceConfig.mk
      <$> Field.withDefault "source" .samples (Field.member CaseSource.names) all
      <*> Field.withDefault "path" none (Field.optional Field.path) all).andThen requirePath

end CaseSourceConfig

end TypeBench
