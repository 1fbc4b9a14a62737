import ModelGraph.CommandLine.Run

/-!
# The program

Runs a command on the files of the machine. Output goes to the standard output, and errors go to the
standard error: misuse of the command line ends with status 2, a command that fails with status 1.

## Main definitions

- `main` — the entry point
-/

namespace ModelGraph

/-- The text of a file, if it can be read. -/
def readText (path : String) : IO (Option String) := do
  try
    let text ← IO.FS.readFile path
    pure (some text)
  catch _ => pure none

/-- Whether a file or directory can be opened. -/
def canOpen (path : String) : IO Bool := do
  try
    let _ ← IO.FS.Handle.mk path .read
    pure true
  catch _ => pure false

/-- Writes a file; whether that succeeded. -/
def writeText (path text : String) : IO Bool := do
  try
    IO.FS.writeFile path text
    pure true
  catch _ => pure false

/-- Access to the files of the machine. -/
def machineFiles : FileAccess IO where
  read := readText
  isPresent := canOpen
  write := writeText

/-- What is left of a stream, line by line. -/
partial def readLines (stream : IO.FS.Stream) (text : String) : IO String := do
  let line ← stream.getLine
  if line.isEmpty then pure text else readLines stream (text ++ line)

/-- The standard input as a whole. -/
def readInput : IO String := do
  let stream ← IO.getStdin
  readLines stream ""

/-- Answers a command line that asks for no command. -/
def answerUsage (error : UsageError) : IO UInt32 := do
  match error with
  | .help =>
    IO.print CommandLine.helpText
    pure 0
  | .version =>
    IO.print CommandLine.versionText
    pure 0
  | error =>
    IO.eprint ("error: " ++ error.message ++ "\n\n" ++ CommandLine.helpText)
    pure 2

/-- Runs a command on the files of the machine. -/
def runHere (invocation : Invocation) : IO UInt32 := do
  let directory ← IO.currentDir
  let around : Surroundings IO :=
    { files := machineFiles, input := readInput, directory := directory.toString }
  let outcome ← (invocation.run around).run
  match outcome with
  | .ok output =>
    IO.print output
    pure 0
  | .error fault =>
    IO.eprintln ("Error: " ++ fault.message)
    pure 1

end ModelGraph

/-- The entry point. -/
def main (arguments : List String) : IO UInt32 := do
  match ModelGraph.Invocation.parse arguments with
  | .error error => ModelGraph.answerUsage error
  | .ok invocation => ModelGraph.runHere invocation
