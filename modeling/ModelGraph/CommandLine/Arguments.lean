/-!
# Command line arguments

What a command line asks for. Options may stand before and after the name of a command; an option
with a value takes it after an equals sign or from the next argument, and short options without
values may share a dash. After two dashes everything is a value. An option is settled when the next
one is met, so of two faults the one that is met first counts.

## Main definitions

- `Command`, `Invocation` — what is asked for
- `UsageError` — what a command line can be answered with instead
- `Invocation.parse` — reads arguments
-/

namespace ModelGraph

/-- What a program is asked to do. -/
inductive Command where
  /-- Write a configuration file, over an old one only if forced. -/
  | init (force : Bool)
  /-- Print the schema of a model file. -/
  | schema (models : String)
  /-- Compile a query, which is a text or the path of a file. -/
  | compile (query : String) (isFile : Bool) (bindings operation : Option String)
deriving DecidableEq, Repr

/-- A command with the options that every command has. -/
structure Invocation where
  command : Command
  config : Option String
deriving DecidableEq, Repr

/-- What a command line is answered with when it asks for no command. -/
inductive UsageError where
  | help
  | version
  /-- Nothing at all is asked for. -/
  | nothingGiven
  | missingCommand
  | missingArgument
  | unknownArgument
  | unknownCommand
  /-- An option without its value, or an empty path. -/
  | invalidValue
  /-- An option that is given twice. -/
  | repeatedOption
  /-- A value for an option that has none. -/
  | unneededValue
deriving DecidableEq, Repr

/-- The wording of an error; help and the version are printed instead. -/
def UsageError.message : UsageError → String
  | .help | .version => ""
  | .nothingGiven | .missingCommand => "a command is required"
  | .missingArgument => "a required argument was not provided"
  | .unknownArgument => "unexpected argument found"
  | .unknownCommand => "unrecognized command"
  | .invalidValue => "a value is required for an option or path"
  | .repeatedOption => "an option cannot be used multiple times"
  | .unneededValue => "unexpected value for an option that takes none"

namespace CommandLine

/-- Everything that can be given. -/
inductive Parameter where
  | config
  | verbose
  | logFile
  | help
  | version
  | force
  | file
  | bindings
  | operation
  | models
  | query
deriving DecidableEq, Repr

/-- Whether a parameter holds a path, which is not empty. -/
def Parameter.isPath : Parameter → Bool
  | .config | .logFile | .models => true
  | _ => false

/-- An option. -/
structure OptionSpec where
  parameter : Parameter
  long : String
  short : Option Char := none
  /-- Whether it has a value. -/
  valued : Bool := false

/-- The options of every command. -/
def commonOptions : List OptionSpec :=
  [{ parameter := .config, long := "config", valued := true },
    { parameter := .verbose, long := "verbose", short := some 'v' },
    { parameter := .logFile, long := "log-file", valued := true },
    { parameter := .help, long := "help", short := some 'h' },
    { parameter := .version, long := "version", short := some 'V' }]

/-- What may be given at some place of a command line. -/
structure Level where
  options : List OptionSpec := commonOptions
  /-- The one value that may stand without an option. -/
  positional : Option Parameter := none
  /-- Whether a command may be named. -/
  namesCommand : Bool := false

/-- The commands. -/
inductive CommandName where
  | init
  | schema
  | compile
  | help
deriving DecidableEq, Repr

/-- The command of a name. -/
def CommandName.ofName? : String → Option CommandName
  | "init" => some .init
  | "schema" => some .schema
  | "compile" | "c" => some .compile
  | "help" => some .help
  | _ => none

/-- What may be given before the name of a command. -/
def topLevel : Level := { namesCommand := true }

/-- What may be given after the name of a command. -/
def CommandName.level : CommandName → Level
  | .init => { options := { parameter := .force, long := "force", short := some 'f' } :: commonOptions }
  | .schema => { positional := some .models }
  | .compile =>
    { options :=
        [{ parameter := .file, long := "file", short := some 'f' },
          { parameter := .bindings, long := "variables", valued := true },
          { parameter := .operation, long := "operation", short := some 'o', valued := true }]
          ++ commonOptions
      positional := some .query }
  | .help => {}

/-! ### Values -/

/-- What has been given so far. -/
structure Given where
  values : List (Parameter × String) := []
  /-- What was met last, with its value if that is known. -/
  pending : Option (Parameter × Option String) := none

namespace Given

/-- The value of a parameter. -/
def value? (given : Given) (parameter : Parameter) : Option String :=
  (given.values.find? fun entry => entry.1 = parameter).map Prod.snd

/-- Whether a parameter was given. -/
def has (given : Given) (parameter : Parameter) : Bool := (given.value? parameter).isSome

/-- Settles what was met last. -/
def settle (given : Given) : Except UsageError Given :=
  match given.pending with
  | none => .ok given
  | some (_, none) => .error .invalidValue
  | some (parameter, some value) =>
    if given.has parameter then .error .repeatedOption
    else if parameter.isPath ∧ value.isEmpty then .error .invalidValue
    else .ok { values := given.values ++ [(parameter, value)] }

/-- Adds a parameter that is complete, and settles it. -/
def give (given : Given) (parameter : Parameter) (value : String) : Except UsageError Given := do
  let given ← given.settle
  match parameter with
  | .help => .error .help
  | .version => .error .version
  | _ => settle { given with pending := some (parameter, some value) }

/-- Adds a parameter that may still get its value from the next argument. -/
def await (given : Given) (parameter : Parameter) (value : Option String) :
    Except UsageError Given := do
  let given ← given.settle
  pure { given with pending := some (parameter, value) }

/-- The parameter that waits for its value. -/
def awaiting? (given : Given) : Option Parameter :=
  match given.pending with
  | some (parameter, none) => some parameter
  | _ => none

end Given

/-! ### Options -/

/-- Reads an option after its two dashes. -/
def readLong (level : Level) (given : Given) (text : String) : Except UsageError Given :=
  let (name, value) : String × Option String :=
    match text.splitOn "=" with
    | name :: rest@(_ :: _) => (name, some ("=".intercalate rest))
    | _ => (text, none)
  match level.options.find? fun option => option.long = name with
  | none => .error .unknownArgument
  | some option =>
    match option.valued, value with
    | true, some value => given.give option.parameter value
    | true, none => given.await option.parameter none
    | false, some _ => .error .unneededValue
    | false, none => given.give option.parameter ""

/-- Reads short options after their dash. What follows one with a value is its value. -/
def readShort (level : Level) (given : Given) : List Char → Except UsageError Given
  | [] => .ok given
  | c :: rest =>
    match level.options.find? fun option => option.short = some c with
    | none => .error .unknownArgument
    | some option =>
      if option.valued then
        match rest with
        | [] => given.await option.parameter none
        | '=' :: value => given.give option.parameter (String.ofList value)
        | value => given.give option.parameter (String.ofList value)
      else
        match given.give option.parameter "" with
        | .ok given => readShort level given rest
        | .error e => .error e

/-- Reads an argument that is an option; one dash alone is not. -/
def readOption? (level : Level) (given : Given) (argument : String) :
    Option (Except UsageError Given) :=
  match argument.toList with
  | '-' :: '-' :: name => some (readLong level given (String.ofList name))
  | '-' :: c :: rest => some (readShort level given (c :: rest))
  | _ => none

/-! ### Levels -/

/-- What an argument without a place is answered with. -/
def misplaced (level : Level) (trailing : Bool) (argument : String) : UsageError :=
  if !level.namesCommand then .unknownArgument
  else if trailing ∧ (CommandName.ofName? argument).isSome then .unknownArgument
  else .unknownCommand

/-- Reads an argument that is no option. `isOpen` says whether the value without an option is still to
come. -/
def readValue (level : Level) (given : Given) (isOpen trailing : Bool) (argument : String) :
    Except UsageError Given :=
  match level.positional with
  | some parameter =>
    if isOpen then given.await parameter (some argument)
    else .error (misplaced level trailing argument)
  | none => .error (misplaced level trailing argument)

/-- Reads arguments up to the name of a command, which is returned with what follows it. -/
def readLevel (level : Level) (given : Given) (isOpen trailing : Bool) :
    List String → Except UsageError (Given × Option (CommandName × List String))
  | [] => .ok (given, none)
  | argument :: rest =>
    if trailing then do
      let given ← readValue level given isOpen trailing argument
      readLevel level given false trailing rest
    else
      match given.awaiting?, level.namesCommand, CommandName.ofName? argument with
      | none, true, some name => .ok (given, some (name, rest))
      | awaiting, _, _ =>
        if argument = "--" then readLevel level given isOpen true rest
        else
          match readOption? level given argument, awaiting with
          | some (.ok given), _ => readLevel level given isOpen trailing rest
          | some (.error e), _ => .error e
          | none, some parameter =>
            readLevel level { given with pending := some (parameter, some argument) } isOpen
              trailing rest
          | none, none => do
            let given ← readValue level given isOpen trailing argument
            readLevel level given false trailing rest

/-- A summary of commands and options. -/
def helpText : String :=
  "Synthesize GraphQL type graphs from data models and compile selections into query filters\n\n"
    ++ "Usage: typegraph [OPTIONS] <COMMAND>\n\n"
    ++ "Commands:\n"
    ++ "  init [-f, --force]                        Write a default .typegraph.yml\n"
    ++ "  schema <MODELS>                           Print the schema of a model file\n"
    ++ "  compile <QUERY> [-f, --file] [--variables <JSON>] [-o, --operation <NAME>]\n"
    ++ "                                            Print the filter and sort of every root field\n\n"
    ++ "Options:\n"
    ++ "      --config <CONFIG>      Path to a configuration file\n"
    ++ "  -v, --verbose              Accepted for every command\n"
    ++ "      --log-file <LOG_FILE>  Accepted for every command\n"
    ++ "  -h, --help                 Print help\n"
    ++ "  -V, --version              Print the version\n"

/-- The name and version of the program. -/
def versionText : String := "typegraph 0.1.0\n"

/-! ### Commands -/

/-- What a request for help is answered with. -/
def answerHelp : List String → UsageError
  | [] => .help
  | name :: rest =>
    if (CommandName.ofName? name).isSome ∧ rest.isEmpty then .help else .unknownCommand

/-- The value of a parameter that has to be given. -/
def required (given : Given) (parameter : Parameter) : Except UsageError String :=
  match given.value? parameter with
  | some value => .ok value
  | none => .error .missingArgument

/-- The command of a name with what is given for it. -/
def commandOf (name : CommandName) (given : Given) : Except UsageError Command :=
  match name with
  | .init => .ok (.init (given.has .force))
  | .schema => do
    let models ← required given .models
    pure (.schema models)
  | .compile => do
    let query ← required given .query
    pure (.compile query (given.has .file) (given.value? .bindings) (given.value? .operation))
  | .help => .error .help

end CommandLine

open CommandLine

/-- Reads arguments. An option that is given before and after the name of a command has the value
after it. -/
def Invocation.parse (arguments : List String) : Except UsageError Invocation := do
  let (outer, named) ← readLevel topLevel {} true false arguments
  match named with
  | none =>
    let outer ← outer.settle
    .error (if outer.values.isEmpty then .nothingGiven else .missingCommand)
  | some (.help, rest) => .error (answerHelp rest)
  | some (name, rest) =>
    let (inner, _) ← readLevel name.level {} true false rest
    let inner ← inner.settle
    let command ← commandOf name inner
    let outer ← outer.settle
    pure { command, config := inner.value? .config <|> outer.value? .config }

end ModelGraph
