import TypeBench.Path
import TypeBench.Text.Integer

/-!
# Arguments of the commands

There are two commands: one evaluates the approaches of a configuration, and one evaluates the
baseline on the built-in test cases. Options and operands of a command come in any order, and of an
option that is given several times the last one counts.

## Main definitions

* `Command`: the commands with their arguments.
* `Parameter`, `Grammar`: the options, and those that a command knows.
* `Grammar.read?`: the options and operands in a list of arguments.
* `Command.ofArguments?`: the command that a list of arguments asks for.
-/

namespace TypeBench

/-- A command with its arguments. -/
inductive Command where
  | run (config output : Path) (logFormat : Text)
  | demo (seed : Option Int) (logFormat : Text)
  | help
  deriving DecidableEq

/-- The options of commands. -/
inductive Parameter where
  | output
  | logFormat
  | seed
  | help
  deriving DecidableEq

/-- The names of the options that a command knows. -/
abbrev Grammar := List (String × Parameter)

/-- The options and operands found in a list of arguments. A value is none for the option that
asks for help. -/
structure Findings where
  options : List (Parameter × Text)
  operands : List Text
  deriving DecidableEq

namespace Findings

/-- Nothing found. -/
def empty : Findings := ⟨[], []⟩

/-- One more option found. -/
def addOption (found : Findings) (option : Parameter) (value : Text) : Findings :=
  { found with options := found.options ++ [(option, value)] }

/-- More operands found. -/
def addOperands (found : Findings) (operands : List Text) : Findings :=
  { found with operands := found.operands ++ operands }

/-- The last value of an option. -/
def last? (found : Findings) (option : Parameter) : Option Text :=
  found.options.reverse.lookup option

end Findings

/-- What an argument is. -/
inductive Argument where
  | operand
  | flag (option : Parameter)
  | setting (option : Parameter) (value : Text)
  | awaiting (option : Parameter)

/-- The argument after which all others are operands. -/
def endOfOptions : Text := "--"

/-- The beginning of an option. -/
def optionMark : CodePoint := '-'

/-- Whether an argument has the form of an option. -/
def isOption (argument : Text) : Bool :=
  argument.head? = some optionMark && 1 < argument.length

namespace Grammar

/-- The option of a name. -/
def option? (grammar : Grammar) (name : Text) : Option Parameter :=
  (List.find? (fun entry => Text.ofString entry.1 = name) grammar).map (·.2)

/-- The argument that is the name of an option. -/
def named : Parameter → Argument
  | .help => .flag .help
  | option => .awaiting option

/-- The argument that is the name of an option with its value. -/
def valued? (value : Text) : Parameter → Option Argument
  | .help => none
  | option => some (.setting option value)

/-- What an argument with a name of one letter is: the value may follow the letter. -/
def short? (grammar : Grammar) (argument : Text) : Option Argument :=
  (grammar.option? (argument.take 2)).bind fun option =>
    match argument.drop 2 with
    | [] => some (named option)
    | value => valued? value option

/-- What an argument with a name of several letters is: the value may follow an equals sign. -/
def long? (grammar : Grammar) (argument : Text) : Option Argument :=
  match argument.dropWhile fun c : CodePoint => c ≠ '=' with
  | [] => (grammar.option? argument).map named
  | _ :: value =>
    (grammar.option? (argument.takeWhile fun c : CodePoint => c ≠ '=')).bind (valued? value)

/-- What an argument is; an option that the command does not know is nothing. -/
def argument? (grammar : Grammar) (argument : Text) : Option Argument :=
  if !isOption argument then some .operand
  else if endOfOptions.isPrefixOf argument then grammar.long? argument
  else grammar.short? argument

/-- The options and operands of arguments beside those already found, unless there is an unknown
option or a value is missing. -/
def readInto? (grammar : Grammar) (found : Findings) : List Text → Option Findings
  | [] => some found
  | argument :: rest =>
    if argument = endOfOptions then some (found.addOperands rest)
    else
      match grammar.argument? argument with
      | none => none
      | some .operand => grammar.readInto? (found.addOperands [argument]) rest
      | some (.flag option) => grammar.readInto? (found.addOption option []) rest
      | some (.setting option value) => grammar.readInto? (found.addOption option value) rest
      | some (.awaiting option) =>
        match rest with
        | [] => none
        | value :: rest => grammar.readInto? (found.addOption option value) rest

/-- The options and operands of arguments. -/
def read? (grammar : Grammar) (arguments : List Text) : Option Findings :=
  grammar.readInto? .empty arguments

end Grammar

namespace Command

/-- The options that all commands know. -/
def commonGrammar : Grammar := [("--log-format", .logFormat), ("--help", .help)]

/-- The options of the command that evaluates a configuration. -/
def runGrammar : Grammar := ("--output-dir", .output) :: ("-o", .output) :: commonGrammar

/-- The options of the command that evaluates the baseline. -/
def demoGrammar : Grammar := ("--seed", .seed) :: commonGrammar

/-- The directory of reports if no other one is given. -/
def defaultOutput : Path := ⟨0, ["results"]⟩

/-- The format of the log if no other one is given. -/
def defaultLogFormat : Text := "console"

/-- The format of the log that is asked for. -/
def logFormatOf (found : Findings) : Text := (found.last? .logFormat).getD defaultLogFormat

/-- The path that an argument writes, if the system takes it for one. -/
def pathOf? (argument : Text) : Option Path :=
  if Path.isUsable argument then some (.ofText argument) else none

/-- The directory of reports that is asked for. -/
def outputOf? (found : Findings) : Option Path :=
  match found.last? .output with
  | some argument => pathOf? argument
  | none => some defaultOutput

/-- The command that evaluates a configuration: its path is the one operand. -/
def runOf? (found : Findings) : Option Command :=
  match found.operands with
  | [config] => return .run (← pathOf? config) (← outputOf? found) (logFormatOf found)
  | _ => none

/-- The command that evaluates the baseline: it has no operands. -/
def demoOf? (found : Findings) : Option Command :=
  if found.operands ≠ [] then none
  else
    match found.last? .seed with
    | none => some (.demo none (logFormatOf found))
    | some text => text.integer?.map fun seed => .demo (some seed) (logFormatOf found)

/-- A command of what is found in its arguments; who asks for help gets nothing else. -/
def orHelp (command? : Findings → Option Command) (found : Findings) : Option Command :=
  if (found.last? .help).isSome then some .help else command? found

/-- The command of a name. -/
def ofName? (name : Text) (arguments : List Text) : Option Command :=
  if name = Text.ofString "run" then (runGrammar.read? arguments).bind (orHelp runOf?)
  else if name = Text.ofString "demo" then (demoGrammar.read? arguments).bind (orHelp demoOf?)
  else none

/-- The command that arguments ask for. The name of the command comes first; help may be asked
for in its place. -/
def ofArguments? : List Text → Option Command
  | [] => none
  | argument :: rest =>
    if argument = endOfOptions then
      match rest with
      | [] => none
      | name :: rest => ofName? name rest
    else if argument = Text.ofString "--help" then some .help
    else ofName? argument rest

end Command

end TypeBench
