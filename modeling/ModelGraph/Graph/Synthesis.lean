import ModelGraph.Graph.References
import ModelGraph.Graph.Dependents

/-!
# Synthesis

A run turns a list of models into a type graph: it lays out the models that are not reused,
resolves their references, and merges the types of the reused ones. What the run built for each
model is returned too, so that later runs can reuse it.

## Main definitions

- `Run` — a caller's mark, the settings, and the number of the run
- `Run.assemble` — the graph of a run and the types of the freshly built models
- `TypeGraph.validate` — refuses names that nothing stands for
- `Run.synthesize` — a run that reuses nothing
-/

namespace ModelGraph

/-- Refuses a key that occurs twice. -/
def checkKeys : (seen : List String) → List ModelDecl → Except SynthError Unit
  | _, [] => .ok ()
  | seen, model :: rest =>
    if seen.contains model.key then .error (.duplicateModel model.key)
    else checkKeys (model.key :: seen) rest

/-- The output type names of models, by model name. -/
def modelTypeNames (models : List ModelDecl) : OrderedMap String String :=
  .ofList (models.map fun model => (model.name, Naming.sanitize model.name))

/-- A run of synthesis. -/
structure Run where
  settings : SynthSettings := {}
  identity : Identity
  /-- Tells the shared values of this run from those of others. -/
  number : Nat
deriving DecidableEq, Repr

namespace Arena

/-- Every named type of an arena that is not a root. Of two types with one name the later kind
replaces the earlier: objects, enums, inputs, connections. -/
def namedTypes (arena : Arena) : OrderedMap String NamedType :=
  .ofList <|
    arena.objects.toList.map (fun entry => (entry.1, .object entry.2))
      ++ arena.enums.toList.map (fun entry => (entry.1, .enum entry.2))
      ++ arena.inputs.toList.map (fun entry => (entry.1, .input entry.2))
      ++ arena.connections.toList.map (fun entry => (entry.1, .connection entry.2))

end Arena

namespace Run

/-- Shares the values of a map, each under the place that its key has in this run. -/
def share {α : Type} (run : Run) (place : String → Place) (map : OrderedMap String α) :
    OrderedMap String (Shared α) where
  entries := map.entries.map fun entry => (entry.1, ⟨⟨run.number, place entry.1⟩, entry.2⟩)
  nodup := by simpa [Assoc.keys, Function.comp_def] using map.nodup

/-- The types of each freshly built model. -/
def freshTypes (arena : Arena) (roots : OrderedMap String (Shared ObjectType))
    (types : OrderedMap String (Shared NamedType)) : List ModelTypes :=
  roots.toList.map fun (name, root) =>
    { key := (arena.rootModels.get? name).getD name, root,
      dependents := dependentsOf root.value types }

/-- Adds a model's root to the graph's models: the freshly built one, which is then used up, or the
reused one, whose dependents join the other types unless their names are taken. -/
def place (reused : OrderedMap String ModelTypes)
    (state : OrderedMap String (Shared ObjectType) × OrderedMap String (Shared ObjectType)
      × OrderedMap String (Shared NamedType)) (model : ModelDecl) :
    OrderedMap String (Shared ObjectType) × OrderedMap String (Shared ObjectType)
      × OrderedMap String (Shared NamedType) :=
  let (roots, placed, types) := state
  let name := Naming.sanitize model.name
  match roots.get? name with
  | some root => (roots.erase name, placed.insert name root, types)
  | none =>
    match reused.get? model.name with
    | some cached =>
      let types := cached.dependents.foldl
        (fun types dependent => types.insertIfNew dependent.value.name dependent) types
      (roots, placed.insert name cached.root, types)
    | none => (roots, placed, types)

/-- The graph of a finished arena, with the reused models merged in. -/
def finish (run : Run) (arena : Arena) (models : List ModelDecl)
    (reused : OrderedMap String ModelTypes) : TypeGraph × List ModelTypes :=
  let types := run.share .type arena.namedTypes
  let roots := run.share .root arena.roots
  let (_, placed, merged) := models.foldl (place reused) (roots, ∅, types)
  ({ identity := run.identity, models := placed, types := merged }, freshTypes arena roots types)

/-- The graph of a run over models, each with the cached types to reuse for it, if any. -/
def assemble (run : Run) (models : List (ModelDecl × Option ModelTypes)) :
    Except SynthError (TypeGraph × List ModelTypes) := do
  let declared := models.map Prod.fst
  let fresh := (models.filter fun entry => entry.2.isNone).map Prod.fst
  let reused := OrderedMap.ofList <| models.filterMap fun entry =>
    entry.2.map fun types => (entry.1.name, types)
  let (_, arena) := (fresh.forM (Arena.addModel run.settings run.identity)).run {}
  let arena ← arena.resolve (modelTypeNames declared)
  arena.checkResolved
  pure (run.finish arena declared reused)

end Run

/-! ## Validation -/

namespace TypeGraph

/-- Whether a name can be the type of an argument. -/
def isInputName (graph : TypeGraph) (name : String) : Bool :=
  OutputScalar.isName name || name = Arguments.sortDirection || name = Arguments.logicalOperator
    || (graph.enum? name).isSome || (graph.input? name).isSome

/-- The name that the type of a field mentions in vain, if any. -/
def danglingType? (graph : TypeGraph) : FieldType → Option String
  | .object name => if (graph.object? name).isNone then some name else none
  | .enum name => if (graph.enum? name).isNone then some name else none
  | .connection name =>
    match graph.connection? name with
    | none => some name
    | some connection =>
      if (graph.model? connection.node).isNone then some connection.node else none
  | _ => none

/-- Refuses a field that mentions a name in vain, or that is still a slot. -/
def checkField (graph : TypeGraph) (owner : String) (field : OutputField) :
    Except SynthError Unit := do
  let core := field.type.innermost
  match core with
  | .unresolved slot => .error (.unresolvedReference slot.owner slot.path)
  | _ => pure ()
  match graph.danglingType? core with
  | some name => .error (.unknownTarget owner field.name name)
  | none => pure ()
  match field.args.find? fun arg => !graph.isInputName arg.type.innermost with
  | some arg => .error (.unknownTarget owner field.name arg.type.innermost)
  | none => pure ()

/-- The object types of a graph: models first. -/
def objects (graph : TypeGraph) : List ObjectType :=
  graph.models.values.map Shared.value
    ++ graph.types.values.filterMap fun type =>
      match type.value with
      | .object object => some object
      | _ => none

/-- Refuses a graph in which a field mentions a name in vain. -/
def validate (graph : TypeGraph) : Except SynthError Unit :=
  graph.objects.forM fun type => type.fields.values.forM (graph.checkField type.name)

end TypeGraph

/-- The graph of a run that reuses nothing. -/
def Run.synthesize (run : Run) (models : List ModelDecl) : Except SynthError TypeGraph := do
  checkKeys [] models
  let (graph, _) ← run.assemble (models.map fun model => (model, none))
  graph.validate
  pure graph

end ModelGraph
