import ModelGraph.Config.Text
import ModelGraph.Files.Access
import ModelGraph.Files.Location

/-!
# Finding configurations

A project keeps its configuration in a file of a fixed name. The file that counts is the one in the
nearest directory, from where one stands upwards.

## Main definitions

- `Config.fileName` — the name of the file
- `Config.find`, `Config.load` — the nearest file and what it says
- `Config.forCommand` — the configuration of a command
-/

namespace ModelGraph.Config

variable {m : Type → Type} [Monad m]

/-- The name of a configuration file. -/
def fileName : String := ".typegraph.yml"

/-- Why there is no configuration. -/
inductive Fault where
  /-- No directory has a configuration file. -/
  | notInitialized
  | unreadable
  | malformed
  | unwritable
deriving DecidableEq, Repr

/-- The wording of a fault. -/
def Fault.message : Fault → String
  | .notInitialized => "Project not initialized. Run 'typegraph init' first."
  | .unreadable => "The configuration file cannot be read"
  | .malformed => "The configuration file is malformed"
  | .unwritable => "The configuration file cannot be written"

/-- Reads a configuration file. -/
def loadFile (files : FileAccess m) (path : String) : ExceptT Fault m Config := do
  match ← files.read path with
  | none => throw .unreadable
  | some text =>
    match parse? text with
    | none => throw .malformed
    | some config => pure config

/-- Writes a configuration file. -/
def save (files : FileAccess m) (path : String) (config : Config) : ExceptT Fault m Unit := do
  unless ← files.write path config.text do throw .unwritable

/-- The first of some directories that has a configuration file. -/
def findIn (files : FileAccess m) : List String → ExceptT Fault m String
  | [] => throw .notInitialized
  | directory :: rest => do
    if ← files.isPresent (Location.join directory fileName) then pure directory
    else findIn files rest

/-- The nearest directory with a configuration file, from a path upwards. -/
def findRoot (files : FileAccess m) (start : String) : ExceptT Fault m String :=
  findIn files (Location.ancestors start)

/-- The nearest configuration file, from a path upwards. -/
def find (files : FileAccess m) (start : String) : ExceptT Fault m String := do
  let root ← findRoot files start
  pure (Location.join root fileName)

/-- The nearest configuration, and the directory that has it. -/
def load (files : FileAccess m) (start : String) : ExceptT Fault m (Config × String) := do
  let root ← findRoot files start
  let config ← loadFile files (Location.join root fileName)
  pure (config, root)

/-- The nearest configuration, or what holds without one. -/
def loadOrDefault (files : FileAccess m) (start : String) : ExceptT Fault m Config :=
  tryCatch (Prod.fst <$> load files start) fun fault =>
    match fault with
    | .notInitialized => pure {}
    | fault => throw fault

/-- The configuration of a command, with its file: the given one, or else the nearest, or else what
holds without one. -/
def forCommand (files : FileAccess m) (explicit : Option String) (directory : String) :
    ExceptT Fault m (Config × Option String) :=
  match explicit with
  | some path => do
    let config ← loadFile files (Location.join directory path)
    pure (config, some path)
  | none =>
    tryCatch
      (do
        let (config, root) ← load files directory
        pure (config, some (Location.join root fileName)))
      fun fault =>
        match fault with
        | .notInitialized => pure ({}, none)
        | fault => throw fault

end ModelGraph.Config
