import TypeBench.Failure
import TypeBench.TestCase.Event
import TypeBench.TestCase.Samples
import TypeBench.TestCase.Source

/-!
# Loading test cases

A file of lines holds one entry a line, blank lines apart; a directory holds one entry a file, in
the order of their names. An entry is a test case or a list of them. All problems of all entries
are collected before loading fails.

## Main definitions

* `CaseEntry`: an entry and its label.
* `CaseFinding`: a test case, or a problem in the place of one.
* `CaseSourceConfig.entries`: the entries of a source.
* `CaseEntry.findings`: the test cases and problems of an entry.
* `TestCase.repeatedIds`: the ids that occur more than once.
* `CaseLoading`, `CaseSourceConfig.loadFiles`, `CaseSourceConfig.load`: the outcome of loading and
  its events.
-/

namespace TypeBench

/-! ### Entries -/

/-- An entry of a source, and its label in problems. -/
structure CaseEntry where
  label : Text
  bytes : Bytes

/-- Whether a byte ends a line. -/
def isLineEnd (b : UInt8) : Bool := b = 10 || b = 13

/-- Whether a byte is an ASCII blank. -/
def isBlankByte (b : UInt8) : Bool := b = 32 || (9 ≤ b && b ≤ 13)

/-- The lines of a byte sequence after those bytes of the current line that are already read. A
carriage return and a line feed end a line alone and together, and the last line needs no end. -/
def linesFrom (read : Bytes) : Bytes → List Bytes
  | [] => if read = [] then [] else [read.reverse]
  | 13 :: 10 :: rest => read.reverse :: linesFrom [] rest
  | b :: rest =>
    if isLineEnd b then read.reverse :: linesFrom [] rest else linesFrom (b :: read) rest

/-- The lines of a byte sequence. -/
def linesOf (bytes : Bytes) : List Bytes := linesFrom [] bytes

/-- The label of a line of a file. -/
def lineLabel (file : Text) (index : Nat) : Text :=
  file ++ ":" ++ Text.ofNat (index + 1)

/-- The entries of a file of lines: its lines that are not blank, labelled by their numbers. -/
def lineEntries (file : Text) (bytes : Bytes) : List CaseEntry :=
  ((linesOf bytes).zipIdx.filter fun (line, _) => !line.all isBlankByte).map fun (line, index) =>
    ⟨lineLabel file index, line⟩

/-- The ending of the names of files that hold test cases. -/
def caseFileEnding : Text := ".json"

/-- The entries of a directory: its files of test cases, in the order of their names. -/
def directoryEntries (files : FileTree) (path : Path) : Except FileFault (List CaseEntry) := do
  if ← files.isDirectory path then
    let names := (← files.listing path).filter caseFileEnding.isSuffixOf
    names.mapM fun name => return ⟨name, ← files.read (path.join ⟨0, [name]⟩)⟩
  else throw .notDirectory

/-- The entries of a source at a path. -/
def CaseSource.entries (source : CaseSource) (files : FileTree) (path : Path) :
    Except FileFault (List CaseEntry) :=
  match source with
  | .jsonl => (files.read path).map (lineEntries path.name)
  | _ => directoryEntries files path

/-! ### Findings -/

/-- What stands in the place of a test case. -/
inductive CaseFinding where
  | found (case : TestCase)
  | problem (text : Text)

/-- The test case, if one was found. -/
def CaseFinding.case? : CaseFinding → Option TestCase
  | found case => some case
  | problem _ => none

/-- The problem, if there is one. -/
def CaseFinding.problem? : CaseFinding → Option Text
  | found _ => none
  | problem text => some text

/-- The event of a finding: only a test case has one. -/
def CaseFinding.event? : CaseFinding → Option CaseEvent
  | found case => some (.caseLoaded case.id case.truths.length)
  | problem _ => none

/-- A problem at a label. -/
def CaseFinding.problemAt (label reason : Text) : CaseFinding :=
  .problem (label ++ ": " ++ reason)

/-- The finding at an item. -/
def findingOf (label : Text) (item : Json) : CaseFinding :=
  match item with
  | .object _ =>
    match TestCase.check item.toValue with
    | .valid case => .found case
    | .invalid problems =>
      .problemAt label
        ("invalid test case (" ++ Text.join ", " (problems.map Problem.pathText) ++ ")")
  | _ => .problemAt label "expected a JSON object"

/-- The label of an item of an entry: one of several items is told by its index. -/
def itemLabel (label : Text) (count index : Nat) : Text :=
  if count = 1 then label else label ++ "[" ++ Text.ofNat index ++ "]"

/-- The items of a document: those of a list, or the document itself. -/
def itemsOf : Json → List Json
  | .array items => items
  | document => [document]

/-- The findings of a document. -/
def documentFindings (label : Text) (document : Json) : List CaseFinding :=
  let items := itemsOf document
  items.zipIdx.map fun (item, index) => findingOf (itemLabel label items.length index) item

/-- The findings of an entry. A document that passes a limit of the reader is a failure. -/
def CaseEntry.findings (maxDepth : Nat) (entry : CaseEntry) : Except Failure (List CaseFinding) :=
  match Utf8.decode? entry.bytes with
  | none => .ok [.problemAt entry.label "not valid UTF-8"]
  | some text =>
    match Json.read text maxDepth with
    | .ok document => .ok (documentFindings entry.label document)
    | .error error@(.malformed ..) =>
      .ok [.problemAt entry.label ("invalid JSON: " ++ error.message)]
    | .error error => .error (.unreadable error)

/-- The findings of entries up to the first failure, and that failure. -/
def findingsOf (maxDepth : Nat) : List CaseEntry → List CaseFinding × Option Failure
  | [] => ([], none)
  | entry :: entries =>
    match entry.findings maxDepth with
    | .error failure => ([], some failure)
    | .ok findings =>
      let (more, failure) := findingsOf maxDepth entries
      (findings ++ more, failure)

/-! ### Repeated ids -/

/-- The state of a search for repeated ids: the ids seen, and those found to be repeated. -/
structure IdSearch where
  seen : List Text
  repeated : List Text

/-- The search after one more id. -/
def IdSearch.next (search : IdSearch) (id : Text) : IdSearch where
  seen := if search.seen.contains id then search.seen else id :: search.seen
  repeated :=
    if search.seen.contains id && !search.repeated.contains id then search.repeated ++ [id]
    else search.repeated

/-- The ids that occur more than once, in the order of their second occurrences. -/
def TestCase.repeatedIds (cases : List TestCase) : List Text :=
  ((cases.map (·.id)).foldl IdSearch.next ⟨[], []⟩).repeated

/-- The problem of a repeated id. -/
def repeatedIdProblem (id : Text) : Text :=
  "duplicate test case id '" ++ id ++ "'"

/-! ### Loading -/

/-- The outcome of loading, and what happened on the way. -/
structure CaseLoading where
  outcome : Except Failure (List TestCase)
  events : List CaseEvent

/-- The reason for a fault of the path of a source. -/
def pathReason (path : Path) (fault : FileFault) : Text :=
  match fault with
  | .missing | .notDirectory => "path not found: " ++ path.text
  | _ => "cannot read " ++ path.text ++ ": " ++ Text.ofString fault.words

/-- The failure for a reason. -/
def unloadable (reason : Text) : Failure := .bench (.unloadableCases reason)

/-- The problems of findings, those of repeated ids last. -/
def problemsOf (findings : List CaseFinding) : List Text :=
  findings.filterMap CaseFinding.problem? ++
    (TestCase.repeatedIds (findings.filterMap CaseFinding.case?)).map repeatedIdProblem

/-- The outcome and the last event for findings. -/
def settle (source : Text) (findings : List CaseFinding) :
    Except Failure (List TestCase) × CaseEvent :=
  let cases := findings.filterMap CaseFinding.case?
  let problems := problemsOf findings
  if problems = [] then (.ok cases, .loadingCompleted source cases.length)
  else
    let reason := Text.join "; " problems
    (.error (unloadable reason), .loadingFailed source reason)

/-- Loading from entries. -/
def loadEntries (maxDepth : Nat) (source : Text) (entries : List CaseEntry) : CaseLoading :=
  let (findings, failure) := findingsOf maxDepth entries
  let loaded := findings.filterMap CaseFinding.event?
  match failure with
  | some failure => ⟨.error failure, loaded⟩
  | none =>
    let (outcome, last) := settle source findings
    ⟨outcome, loaded ++ [last]⟩

namespace CaseSourceConfig

/-- Loading from a path. A path that the system is not even asked for is a
failure of its own. -/
def loadPath (maxDepth : Nat) (source : CaseSource) (files : FileTree) (path : Path) :
    CaseLoading :=
  match source.entries files path with
  | .ok entries => loadEntries maxDepth source.name entries
  | .error fault =>
    if fault.isRefusal then ⟨.error (.file path fault), []⟩
    else
      let reason := pathReason path fault
      ⟨.error (unloadable reason), [.loadingFailed source.name reason]⟩

/-- Loading from the files of a source, with a reader of documents that are nested so deep at
most. -/
def loadFiles (config : CaseSourceConfig) (files : FileTree) (maxDepth : Nat := Json.usualDepth) :
    CaseLoading :=
  match config.source, config.path with
  | .samples, _ | _, none =>
    ⟨.error (unloadable ("source '" ++ config.source.name ++ "' is not file-backed")), []⟩
  | source, some path =>
    let loading := loadPath maxDepth source files path
    { loading with events := .loadingStarted source.name (some path.text) :: loading.events }

/-- Loading the built-in test cases. -/
def loadSamples : CaseLoading where
  outcome := .ok TestCase.samples
  events :=
    .loadingStarted CaseSource.samples.name none ::
      TestCase.samples.map (fun case => .caseLoaded case.id case.truths.length) ++
      [.loadingCompleted CaseSource.samples.name TestCase.samples.length]

/-- Loading from a source. -/
def load (config : CaseSourceConfig) (files : FileTree) (maxDepth : Nat := Json.usualDepth) :
    CaseLoading :=
  match config.source with
  | .samples => loadSamples
  | _ => config.loadFiles files maxDepth

end CaseSourceConfig

end TypeBench
