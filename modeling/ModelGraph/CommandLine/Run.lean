import ModelGraph.Cache.Synthesizer
import ModelGraph.CommandLine.Arguments
import ModelGraph.Config.File
import ModelGraph.Json.Reader
import ModelGraph.Json.Writer
import ModelGraph.Model.Decode
import ModelGraph.Query.Compile
import ModelGraph.Schema.Text

/-!
# Running commands

What each command prints, given access to files and to the standard input.

## Main definitions

- `CommandFault` — why a command fails
- `Command.run` — runs a command
-/

namespace ModelGraph

/-- Why a command fails. -/
inductive CommandFault where
  | config (fault : Config.Fault)
  /-- There is a configuration file already. -/
  | alreadyInitialized (path : String)
  /-- A model file cannot be read, or is malformed. -/
  | models (path : String) (isMalformed : Bool)
  | unknownModel (key : String)
  | synthesis (error : SynthError)
  | schema (error : SchemaError)
  | queryFile (path : String)
  /-- The variables are no JSON. -/
  | variableText
  | request (error : RequestError)

/-- The wording of a fault. -/
def CommandFault.message : CommandFault → String
  | .config fault => fault.message
  | .alreadyInitialized path => "Project already initialized at " ++ path
  | .models path _ => "Failed to load models from " ++ path
  | .unknownModel text => "Configuration error: " ++ text
  | .synthesis error => error.message
  | .schema error => "Schema error: " ++ error.message
  | .queryFile path => "Failed to read query file " ++ path
  | .variableText => "Variables must be a JSON object"
  | .request error => error.message

/-- What a command can use. -/
structure Surroundings (m : Type → Type) where
  files : FileAccess m
  /-- The standard input as a whole. -/
  input : m String
  /-- The directory that relative paths start from. -/
  directory : String

namespace Command

variable {m : Type → Type} [Monad m]

/-- A command's output, or why it fails. -/
abbrev Outcome (m : Type → Type) := ExceptT CommandFault m String

/-- Writes a configuration file with every default. -/
def runInit (around : Surroundings m) (force : Bool) : Outcome m := do
  let path := Location.join around.directory Config.fileName
  let isPresent ← around.files.isPresent path
  if isPresent ∧ !force then throw (.alreadyInitialized path)
  else
    ExceptT.adapt CommandFault.config (Config.save around.files path {})
    pure ("Initialized typegraph project in " ++ around.directory ++ "\n  Config: " ++ path ++ "\n")

/-- The schema of models with the given settings. -/
def schemaOf (config : Config) (models : ModelSet) : Except CommandFault Schema := do
  let run : Run := { settings := config.synth, identity := ⟨0⟩, number := 0 }
  let caches := Caches.ofSettings 0 config.cache
  let (loaded, caches) := run.loadModels 0 models caches
  let declared ← loaded.mapError .unknownModel
  let (graph, _) := run.synthesizeCached 0 declared caches
  let graph ← graph.mapError .synthesis
  (Schema.ofGraph graph.value ({} : HookRegistry Unit)).mapError .schema

/-- Prints the schema of a model file. -/
def runSchema (around : Surroundings m) (explicit : Option String) (path : String) :
    Outcome m := do
  let (config, _) ← ExceptT.adapt CommandFault.config
    (Config.forCommand around.files explicit around.directory)
  match ← around.files.read (Location.join around.directory path) with
  | none => throw (.models path false)
  | some text =>
    match (Tree.ofYaml? text).bind (ModelSet.ofTree? .spelled) with
    | none => throw (.models path true)
    | some models =>
      match schemaOf config models with
      | .error fault => throw fault
      | .ok printed => pure printed.text

/-- The text of a query: a dash stands for the standard input, even where files are asked for. -/
def queryText (around : Surroundings m) (query : String) (isFile : Bool) : Outcome m := do
  if query = "-" then around.input
  else if isFile then
    match ← around.files.read (Location.join around.directory query) with
    | some text => pure text
    | none => throw (.queryFile query)
  else pure query

/-- What variables are bound to by a text. -/
def bindings (written : Option String) : Except CommandFault Variables :=
  match written with
  | none => .ok ∅
  | some text =>
    match Json.parse? text with
    | some value => .ok (.ofJson value)
    | none => .error .variableText

/-- Queries by response key, as JSON. -/
def queriesJson (queries : OrderedMap String CompiledQuery) : Json :=
  .object (queries.toList.map fun entry => (entry.1, entry.2.toJson))

/-- Prints what a query compiles to. -/
def runCompile (around : Surroundings m) (query : String) (isFile : Bool)
    (written operation : Option String) : Outcome m := do
  let text ← queryText around query isFile
  match bindings written with
  | .error fault => throw fault
  | .ok bindings =>
    match compileRequest text operation bindings with
    | .error e => throw (.request e)
    | .ok queries => pure ((queriesJson queries).pretty ++ "\n")

end Command

/-- Runs a command. -/
def Invocation.run {m : Type → Type} [Monad m] (around : Surroundings m)
    (invocation : Invocation) : Command.Outcome m :=
  match invocation.command with
  | .init force => Command.runInit around force
  | .schema models => Command.runSchema around invocation.config models
  | .compile query isFile written operation =>
    Command.runCompile around query isFile written operation

end ModelGraph
