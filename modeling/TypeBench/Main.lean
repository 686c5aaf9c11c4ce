import Std.Time.Zoned
import TypeBench.Command.Snapshot

/-!
# The program

The program takes the working directory as it stands, executes the command that its arguments ask
for, prints what the command has printed, and writes the files that it has changed. A clock whose
readings are values cannot be read ahead of time, so the program measures no times.

## Main definitions

* `main`: the program.
-/

namespace TypeBench.Program

/-- The path of a place. -/
def pathOf (place : FilePlace) : String :=
  let path : Path := match place.anchor with
    | .up levels => ⟨0, List.replicate levels (Text.ofString "..") ++ place.names⟩
    | .root => ⟨1, place.names⟩
  path.text.toString

/-- The files at a place and below it. -/
partial def readFiles (place : FilePlace) : IO FileTree := do
  let path ← IO.FS.realPath (pathOf place)
  if ← path.isDir then
    let below ← (← path.readDir).toList.mapM fun entry =>
      readFiles (place.inside (Text.ofString entry.fileName))
    return (place, .directory) :: below.flatten
  else return [(place, .file (← IO.FS.readBinFile (pathOf place)).toList)]

/-- Writes an entry. -/
def writeEntry (place : FilePlace) : FileEntry → IO Unit
  | .directory => IO.FS.createDirAll (pathOf place)
  | .file bytes => IO.FS.writeBinFile (pathOf place) bytes.toByteArray

/-- The values of those variables that are set. -/
def readVariables (names : List Text) : IO Environment :=
  names.filterMapM fun name => do
    return (← IO.getEnv name.toString).map fun value => (name, Text.ofString value)

/-- The moment, by the clock of the system. -/
def readMoment : IO Timestamp := do
  let now ← Std.Time.PlainDateTime.now
  return {
    date := ⟨now.date.year.toInt.toNat, now.date.month.val.toNat, now.date.day.val.toNat⟩
    hour := now.time.hour.val.toNat
    minute := now.time.minute.val.toNat
    second := now.time.second.val.toNat
    microsecond := now.time.nanosecond.val.toNat / 1000
    offset := none }

/-- Prints a text, or a line of the log in a format. -/
def printItem (now : Timestamp) (format : LogFormat) : Printed → IO Unit
  | .text text => IO.print text.toString
  | .log line =>
    match format with
    | .json => IO.println line.json.compact.toString
    | .console => IO.println (line.text now).toString

/-- What a command finds. -/
def readSurroundings (command : Command) : IO Surroundings := do
  let files ← readFiles (.ofNames [])
  return {
    files := files
    environment := ← readVariables (command.variables files)
    yaml := files.yaml
    parser := files.parser
    clock := .ofReadings []
    entropy := Twister.ofSeed (← IO.monoNanosNow)
    now := ← readMoment
    hasStyles := ← (← IO.getStdout).isTty }

/-- Executes a command. -/
def perform (command : Command) : IO UInt32 := do
  let w ← readSurroundings command
  let (code, transcript) := command.execute w
  transcript.printed.forM (printItem w.now transcript.logFormat)
  (w.files.changes transcript.files).forM fun (place, entry) => writeEntry place entry
  return UInt32.ofNat code

/-- What is said when the arguments ask for no command. -/
def usage : String :=
  "usage: run CONFIG [--output-dir DIR] [--log-format console|json]\n" ++
  "       demo [--seed SEED] [--log-format console|json]"

/-- Executes the command that arguments ask for. -/
def start (arguments : List Text) : IO UInt32 :=
  match Command.ofArguments? arguments with
  | some .help => do
    IO.println usage
    return 0
  | some command => perform command
  | none => do
    IO.eprintln usage
    return UInt32.ofNat Command.usageCode

end TypeBench.Program

/-- Executes the command that the arguments ask for. -/
def main (arguments : List String) : IO UInt32 :=
  TypeBench.Program.start (arguments.map TypeBench.Text.ofString)
