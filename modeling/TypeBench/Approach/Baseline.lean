import TypeBench.Approach.Basic
import TypeBench.Occurrence.Walk
import TypeBench.Random.Twister
import TypeBench.Tree.Walk

/-!
# The random baseline

The baseline is what other approaches are compared with. For each occurrence of a source unit it
draws whether to predict at all, and then draws one of its labels.

## Main definitions

* `Baseline`: the settings of the baseline and its generators.
* `OptionFault`: what may be wrong with an option.
* `Baseline.configure`: taking options over. They are looked at in a fixed order, and those before
  a faulty one are taken over.
* `Baseline.drawFor`, `Baseline.draw`: what is drawn for an occurrence, and for a list of them.
* `Baseline.predict`: the predictions for a source. It never fails: what was predicted before a
  failure is kept.
* `Baseline.create`: the approach of a configuration.
-/

namespace TypeBench

/-- What a call asks of the parser. -/
inductive ParserCall where
  | ready
  | parse
  | close
  deriving DecidableEq

/-- The settings of the baseline, and its generators: one for its draws, and one that seeds it when
no seed is given. -/
structure Baseline where
  name : Text
  labels : List Text
  probability : Binary64
  seed : Option Int
  generator : Twister
  entropy : Twister

/-- What may be wrong with an option. -/
inductive OptionFault where
  | notLabels
  | noLabels
  | notNumber
  | notShare (given : Value)
  | notSeed

/-- The words about a faulty option. -/
def OptionFault.reason : OptionFault → Text
  | notLabels => "must be a list of type labels"
  | noLabels => "must not be empty"
  | notNumber => "must be a number"
  | notShare given => "must be between 0 and 1, got " ++ given.shown
  | notSeed => "must be an integer or null"

namespace Baseline

/-- The name of a baseline that is given none. -/
def defaultName : Text := "Random Type Inference"

/-- What the baseline does, in words. -/
def description : Text := "Randomly assigns types from a predefined set to identifiers"

/-- The labels of a baseline that is given none. -/
def defaultLabels : List Text :=
  ["boolean", "string", "number", "object", "array", "function", "null", "undefined"]

/-- The name for a source that has none. -/
def unknownFile : Text := "unknown.js"

/-- The option that holds the labels. -/
def labelsOption : Text := "availableTypes"

/-- The option that holds the probability of a prediction. -/
def probabilityOption : Text := "randomTypeProbability"

/-- A baseline before it is set up. -/
def start (name : Text) (entropy : Twister) : Baseline where
  name := name
  labels := defaultLabels
  probability := 1
  seed := none
  generator := entropy.split.1
  entropy := entropy.split.2

/-! ### Options -/

/-- The items of a sequence; the items of a byte sequence are numbers. -/
def items? : Value → Option (List Value)
  | .list values => some values
  | .tuple values => some values
  | .bytes bytes => some (bytes.map fun b => .int b.toNat)
  | _ => none

/-- The labels that an option gives: the texts of the items of a sequence. -/
def readLabels (value : Value) : Except OptionFault (List Text) :=
  match items? value with
  | none => .error .notLabels
  | some [] => .error .noLabels
  | some items => .ok (items.map Value.shown)

/-- The probability that an option gives. -/
def readProbability (value : Value) : Except OptionFault Binary64 :=
  match value with
  | .int i => if 0 ≤ i ∧ i ≤ 1 then .ok (Binary64.ofInt i) else .error (.notShare value)
  | .float x => if Binary64.le 0 x && x.le 1 then .ok x else .error (.notShare value)
  | _ => .error .notNumber

/-- The seed that an option gives. -/
def readSeed : Value → Except OptionFault (Option Int)
  | .null => .ok none
  | .int i => .ok (some i)
  | _ => .error .notSeed

/-- The value of an option that is present and not null. -/
def given? (options : Options) (name : Text) : Option Value :=
  (Value.get? name options).bind fun value => if value.isNull then none else some value

/-- The labels taken over from options. -/
def takeLabels (options : Options) (b : Baseline) : Except OptionFault Baseline :=
  match given? options labelsOption with
  | none => .ok b
  | some value => (readLabels value).map fun labels => { b with labels := labels }

/-- The probability taken over from options. -/
def takeProbability (options : Options) (b : Baseline) : Except OptionFault Baseline :=
  match given? options probabilityOption with
  | none => .ok b
  | some value => (readProbability value).map fun p => { b with probability := p }

/-- The seed taken over from options; a null there takes an earlier seed away. -/
def takeSeed (options : Options) (b : Baseline) : Except OptionFault Baseline :=
  match Value.get? ApproachConfig.seedOption options with
  | none => .ok b
  | some value => (readSeed value).map fun seed => { b with seed := seed }

/-- The options in the order in which they are taken over. -/
def steps (options : Options) : List (Text × (Baseline → Except OptionFault Baseline)) :=
  [(labelsOption, takeLabels options), (probabilityOption, takeProbability options),
    (ApproachConfig.seedOption, takeSeed options)]

/-- The baseline after a series of steps: up to the first faulty option, which is named with its
fault. -/
def takeAll (b : Baseline) :
    List (Text × (Baseline → Except OptionFault Baseline)) →
      Baseline × Option (Text × OptionFault)
  | [] => (b, none)
  | (name, step) :: rest =>
    match step b with
    | .ok b => takeAll b rest
    | .error fault => (b, some (name, fault))

/-- The baseline with a new generator: that of its seed, or one seeded from its entropy. -/
def reseeded (b : Baseline) : Baseline :=
  match b.seed with
  | some seed => { b with generator := Twister.ofSeed seed }
  | none => { b with generator := b.entropy.split.1, entropy := b.entropy.split.2 }

/-- The settings of a baseline, as options. -/
def settings (b : Baseline) : Value :=
  .ofFields [(labelsOption, .list (b.labels.map Value.text)),
    (probabilityOption, .float b.probability),
    (ApproachConfig.seedOption, (b.seed.map Value.int).getD .null)]

/-- The outcome of a call, with what it asked of the parser. -/
structure Response (α : Type) extends Reply Baseline α where
  calls : List ParserCall

/-- Taking options over. The parser is only asked whether it is ready when all options are
accepted. -/
def configure (parser : SourceParser) (options : Options) (b : Baseline) : Response Unit :=
  match takeAll b (steps options) with
  | (b, some (option, fault)) =>
    { outcome := .error (.failed (.bench (.invalidOption b.name option fault.reason)))
      approach := b
      events := []
      calls := [] }
  | (b, none) =>
    let b := b.reseeded
    match parser.ready with
    | .error failure =>
      { outcome := .error (.failed failure), approach := b, events := [], calls := [.ready] }
    | .ok () =>
      { outcome := .ok ()
        approach := b
        events := [.configured b.name b.settings]
        calls := [.ready] }

/-! ### Predictions -/

/-- Whether to predict, drawn with a probability. -/
def drawChoice (probability : Binary64) (g : Twister) : Bool × Twister :=
  (g.share.1.lt probability, g.share.2)

/-- A label, drawn from a list. -/
def drawLabel (labels : List Text) (g : Twister) : Text × Twister :=
  (labels.getD (g.index labels.length).1 [], (g.index labels.length).2)

/-- What is drawn for an occurrence: no prediction, or one of a label. -/
def drawFor (labels : List Text) (probability : Binary64) (o : Occurrence) (g : Twister) :
    Option TypePrediction × Twister :=
  match drawChoice probability g with
  | (false, g) => (none, g)
  | (true, g) =>
    let (label, g) := drawLabel labels g
    (some (.ofOccurrence label o), g)

/-- The predictions for occurrences, and the generator after the draws. -/
def draw (labels : List Text) (probability : Binary64) :
    List Occurrence → Twister → List TypePrediction × Twister
  | [], g => ([], g)
  | o :: rest, g =>
    let drawn := drawFor labels probability o g
    let later := draw labels probability rest drawn.2
    (drawn.1.toList ++ later.1, later.2)

/-- The name under which a source is spoken of. -/
def fileName (file : Option Text) : Text :=
  match file with
  | some name => if name = [] then unknownFile else name
  | none => unknownFile

/-- The event about the faults of a tree, if it has any. -/
def syntaxEvents (name file : Text) (tree : Tree) : List ApproachEvent :=
  if tree.errorCount = 0 then [] else [.syntaxErrors name file tree.errorCount]

/-- The event at the end of a walk: its failure, or its success. -/
def lastEvent (name file : Text) (trace : Trace) (emitted : Nat) : ApproachEvent :=
  match trace.failure with
  | some reason => .traversalFailed name file reason emitted
  | none => .predictionsCompleted name file trace.found.length emitted

/-- The predictions for a source unit. -/
def predictUnit (file : Text) (u : SourceUnit) (b : Baseline) :
    Reply Baseline (List TypePrediction) :=
  let trace := u.trace
  let (predictions, g) := draw b.labels b.probability trace.found b.generator
  { outcome := .ok predictions
    approach := { b with generator := g }
    events := syntaxEvents b.name file u.tree ++
      [lastEvent b.name file trace predictions.length] }

/-- The predictions for a source. -/
def predict (parser : SourceParser) (source : Text) (file : Option Text) (b : Baseline) :
    Response (List TypePrediction) :=
  match parser.parse source with
  | .ok u => { predictUnit (fileName file) u b with calls := [.parse] }
  | .error failure =>
    { outcome := .ok []
      approach := b
      events := [.traversalFailed b.name (fileName file) failure.message 0]
      calls := [.parse] }

/-- Disposing of the baseline closes the parser. -/
def dispose (b : Baseline) : Response Unit :=
  { outcome := .ok (), approach := b, events := [], calls := [.close] }

/-- The approach of a configuration: the baseline is the only kind there is. -/
def create (name : Text) (config : ApproachConfig) (entropy : Twister) :
    Except Failure Baseline :=
  if config.kind = ApproachConfig.randomKind then .ok (start name entropy)
  else .error (.bench (.unsupportedApproach config.kind))

end Baseline

/-- A baseline with its parser. -/
structure ParsingBaseline where
  baseline : Baseline
  parser : SourceParser

namespace ParsingBaseline

/-- A reply about a baseline as one about it with its parser. -/
def reply {α : Type} (parser : SourceParser) (r : Reply Baseline α) : Reply ParsingBaseline α :=
  ⟨r.outcome, ⟨r.approach, parser⟩, r.events⟩

instance : Approach ParsingBaseline where
  name a := a.baseline.name
  configure options a := reply a.parser (a.baseline.configure a.parser options).toReply
  predict source file a := reply a.parser (a.baseline.predict a.parser source (some file)).toReply
  dispose a := reply a.parser a.baseline.dispose.toReply

end ParsingBaseline

end TypeBench
