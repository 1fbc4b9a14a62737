import ModelGraph.Query.EnumSources
import ModelGraph.Schema.FieldValue
import ModelGraph.Schema.Response
import ModelGraph.Schema.Validation

/-!
# Executing requests

A request that a schema admits is executed field by field, in the order in which it is written. The
root fields ask a resolver, which is given the filter and the sort that their selections compile to;
every other field reads the value of its parent. A field that fails is recorded and left out of its
object, and an object that has no field is null.

## Main definitions

- `FieldFault` — why a field failed, and where
- `Execution` — an action that records faults
- `Executor.select` — the members that a selection gives
- `Schema.execute` — the response to a request
-/

namespace ModelGraph

/-- A step of the way to a field in a response. -/
inductive PathStep where
  | key (name : String)
  | index (n : Nat)
deriving DecidableEq, Repr

/-- Why a field failed. The path is empty where a resolver or a reader failed, rather than the value
not suiting its type. -/
structure FieldFault where
  message : String
  path : List PathStep := []
deriving DecidableEq, Repr

/-- The wording for a type that refuses null. -/
def FieldFault.missing : String := "internal: non-null types require a return value"

/-- The wording for a value that is no item of an enum. -/
def FieldFault.noItem (enum : String) : String :=
  "internal: invalid item for enum \"" ++ enum ++ "\""

/-- The wording for a value that does not have the shape of its type. -/
def FieldFault.wrongShape (type : String) : String :=
  "internal: invalid value for type \"" ++ type ++ "\""

/-- The wording for reading a field of null. -/
def FieldFault.noRecord : String :=
  "internal: \"null\" is not of the expected type \"serde_json::value::Value\""

/-- The world and the faults so far, first to last. -/
structure Progress (ω : Type) where
  world : ω
  faults : List FieldFault := []

/-- An action that may fail at a field, after which the world and the faults stay. -/
abbrev Execution (ω α : Type) := ExceptT FieldFault (StateM (Progress ω)) α

namespace Execution

variable {ω α : Type}

/-- Runs an effect; what it fails with becomes a fault without a path. -/
def perform (effect : Effect ω α) : Execution ω α := do
  let progress ← get
  let (result, world) := effect.run.run progress.world
  set { progress with world := world }
  match result with
  | .ok value => pure value
  | .error message => throw { message }

/-- Records a failure and goes on without a value. -/
def recorded (action : Execution ω α) : Execution ω (Option α) :=
  tryCatch (some <$> action) fun fault => do
    modify fun progress => { progress with faults := progress.faults ++ [fault] }
    pure none

end Execution

/-- What stays the same while a request is executed. -/
structure Executor (ω : Type) where
  schema : Schema
  registry : HookRegistry ω
  resolver : Resolver ω
  /-- What the variables of the operation stand for. -/
  lookup : String → Option ConstValue

/-- What a variable of an operation stands for: the given value, or else the default, or else null
where its type allows null. -/
def Operation.lookup (operation : Operation) (given : Variables) (name : String) :
    Option ConstValue :=
  (operation.variableDefs.find? fun definition => definition.name = name).bind fun definition =>
    given.get? name <|> definition.default
      <|> if (TypeRef.ofVariable definition.type).isNonNull then none else some .null

namespace Executor

variable {ω : Type}

/-- An argument as JSON. -/
def convert (run : Executor ω) (value : ArgValue) : Except SelectionError Json :=
  match value.substitute run.lookup with
  | .ok value => .ok value.toJson
  | .error name => .error (.unboundVariable name)

/-- The tree of a selected field. -/
def tree (run : Executor ω) (name key : String) (arguments : List (String × ArgValue))
    (inner : List Selection) : SelectionTree :=
  .node name key (SelectionTree.convertAll run.convert arguments)
    (SelectionTree.expand run.convert [] ∅ inner)

/-! ### Reading fields -/

/-- Reads a stored field of the parent. -/
def storedReader (source : String) : Resolver ω := fun params =>
  pure ((params.parent.get? source).getD .null)

/-- Puts the named hooks around a resolver. -/
def hooked (run : Executor ω) (names : HookNames) (resolver : Resolver ω) :
    Execution ω (Resolver ω) :=
  match run.registry.compose names resolver with
  | .ok resolver => pure resolver
  | .error e => throw { message := e.message }

/-- Asks the resolver for a root field of a model. -/
def askRoot (run : Executor ω) (model : ObjectType) (field : String) (args : Json)
    (selected : SelectionTree) : Execution ω Json :=
  match selected.compile with
  | .error e => throw { message := (RequestError.selection e).message }
  | .ok query => do
    let resolver ← run.hooked model.hooks run.resolver
    Execution.perform <| resolver
      { typeName := model.name, field, args, parent := .null,
        query := query.restoreEnums run.schema.graph model.name }

/-- The first item of a list; anything else stays. -/
def firstOfList : Json → Json
  | .array [] => .null
  | .array (first :: _) => first
  | value => value

/-- The record that a parent is. -/
def parentRecord : FieldValue → Execution ω Json
  | .record value => pure value
  | .leaf _ | .list _ => throw { message := FieldFault.noRecord }

/-- Reads the value of a field. -/
def read (run : Executor ω) (field : SchemaField) (args : Json) (selected : SelectionTree)
    (parent : FieldValue) : Execution ω (Option FieldValue) := do
  let graph := run.schema.graph
  match field.reader with
  | .many model =>
    let value ← run.askRoot model field.name args selected
    pure (FieldValue.ofStored? graph (.list (.object model.name)) value)
  | .byId model =>
    let value ← run.askRoot model field.name args selected
    pure (FieldValue.ofStored? graph (.object model.name) (firstOfList value))
  | .stored owner output =>
    let parent ← parentRecord parent
    let resolver ← run.hooked output.hooks (storedReader output.source)
    let value ← Execution.perform <| resolver
      { typeName := owner, field := output.name, args, parent }
    pure (FieldValue.ofStored? graph output.type value)
  | .count =>
    let parent ← parentRecord parent
    pure (some (.leaf (.number (.int (Connection.count parent).toInt))))
  | .edges =>
    let parent ← parentRecord parent
    pure (some (.list ((Connection.edges parent).map .record)))
  | .node source =>
    let parent ← parentRecord parent
    pure ((Connection.node? source parent).map .record)
  | .cursor =>
    let parent ← parentRecord parent
    pure (some (.leaf (.string (Connection.cursor parent))))

/-! ### Completing values -/

/-- Completes the value of a named type; `object` gives the response of an object. -/
def completeNamed (run : Executor ω)
    (object : SchemaObject → FieldValue → List PathStep → Execution ω Json)
    (path : List PathStep) (name : String) (value : FieldValue) : Execution ω Json :=
  match run.schema.type? name, value with
  | some (.object type), value => object type value path
  | some (.scalar _), .leaf value => pure value
  | some (.enum _ items), .leaf (.string item) =>
    if items.contains item then pure (.string item)
    else throw { message := FieldFault.noItem name, path }
  | some (.enum _ _), _ => throw { message := FieldFault.noItem name, path }
  | _, _ => throw { message := FieldFault.wrongShape name, path }

/-- Completes a value for its type. An item that fails makes its whole list fail. -/
def complete (run : Executor ω)
    (object : SchemaObject → FieldValue → List PathStep → Execution ω Json) :
    List PathStep → TypeRef → Option FieldValue → Execution ω Json
  | path, .nonNull _, none => throw { message := FieldFault.missing, path }
  | path, .nonNull inner, some value => complete run object path inner (some value)
  | _, _, none => pure .null
  | path, .named name, some value => completeNamed run object path name value
  | path, .list element, some (.list items) => do
    let done ← items.zipIdx.mapM fun item =>
      complete run object (path ++ [.index item.2]) element (some item.1)
    pure (.array done)
  | path, .list element, some _ =>
    throw { message := FieldFault.wrongShape (TypeRef.list element).text, path }

/-- Whether selections under a type condition apply to an object type. -/
def applies (type : SchemaObject) : Option String → Bool
  | none => true
  | some condition => condition = type.name || type.interface = some condition

/-- Adds the members that selections give for a parent of an object type. -/
def select (run : Executor ω) (type : SchemaObject) (parent : FieldValue) (path : List PathStep)
    (members : List (String × Json)) : List Selection → Execution ω (List (String × Json))
  | [] => pure members
  | .field alias? name arguments _ inner :: rest => do
    let key := alias?.getD name
    if name = Selection.typeName then
      select run type parent path (Response.put members key (.string type.name)) rest
    else
      match type.field? name with
      | none => select run type parent path members rest
      | some field =>
        let here := path ++ [.key key]
        let value ← Execution.recorded do
          let args ←
            match SelectionTree.convertAll run.convert arguments with
            | .ok args => pure (Json.ofMembers args)
            | .error e => throw { message := e.message }
          let value ← run.read field args (run.tree name key arguments inner) parent
          run.complete
            (fun type value path => do
              let members ← select run type value path [] inner
              pure (Response.ofMembers members))
            here field.type value
        match value with
        | some value => select run type parent path (Response.put members key value) rest
        | none => select run type parent path members rest
  | .inline condition _ inner :: rest => do
    let members ←
      if applies type condition then select run type parent path members inner else pure members
    select run type parent path members rest
  | .spread _ _ :: rest => select run type parent path members rest
termination_by selections => sizeOf selections
decreasing_by
  all_goals simp +arith

end Executor

/-- What a request is answered with. -/
structure Response where
  data : Json
  faults : List FieldFault

namespace Schema

/-- Executes an operation whose fragments are written out. -/
def executeSelections {ω : Type} (run : Executor ω) (selections : List Selection) :
    StateM ω Response := fun world =>
  match run.schema.root? with
  | none => (⟨.null, []⟩, world)
  | some root =>
    let action := run.select root (.leaf .null) [] [] selections
    let (result, progress) := action.run.run { world }
    match result with
    | .ok members => (⟨Response.ofMembers members, progress.faults⟩, progress.world)
    | .error fault => (⟨.null, progress.faults ++ [fault]⟩, progress.world)

/-- The response to a request, or `none` for a request that the schema does not admit. -/
def execute {ω : Type} (schema : Schema) (registry : HookRegistry ω) (resolver : Resolver ω)
    (text : String) (name : Option String) (bindings : Variables) :
    StateM ω (Option Response) :=
  match Document.parse text with
  | .error _ => pure none
  | .ok document =>
    if schema.admits document bindings then
      match document.executed? name with
      | none => pure none
      | some operation => do
        let run : Executor ω := { schema, registry, resolver, lookup := operation.lookup bindings }
        let selections := Selection.prune bindings
          (Selection.inlineSpreads document.fragments operation.selections)
        some <$> executeSelections run selections
    else pure none

end Schema

end ModelGraph
