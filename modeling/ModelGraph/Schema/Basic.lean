import ModelGraph.Graph.Arguments
import ModelGraph.Hook
import ModelGraph.Schema.TypeRef

/-!
# Exported schemas

The schema of a type graph: its types, the scalars and enums that arguments need, the interface of
identified types, and a root type with two fields for every model, one for many records and one for
a single record by id.

Types are registered in a fixed order, and a later type takes the place of an earlier one of the
same name.

## Main definitions

- `FieldReader` — where the value of a schema field comes from
- `SchemaField`, `SchemaType`, `Schema`
- `Schema.ofGraph` — the schema of a graph
-/

namespace ModelGraph

/-- Where the value of a schema field comes from. -/
inductive FieldReader where
  /-- A stored field of the parent, of the type `owner`. -/
  | stored (owner : String) (field : OutputField)
  /-- Many records of a model. -/
  | many (model : ObjectType)
  /-- One record of a model. -/
  | byId (model : ObjectType)
  /-- The number of records of a connection. -/
  | count
  /-- The edges of a connection. -/
  | edges
  /-- The record of an edge; a bare id becomes a record with the id under `source`. -/
  | node (source : String)
  /-- The cursor of an edge. -/
  | cursor
deriving DecidableEq

/-- A parameter of a field, or a field of an input. -/
structure SchemaInput where
  name : String
  type : TypeRef
deriving DecidableEq, Repr

/-- A field of an object or an interface. -/
structure SchemaField where
  name : String
  description : Option String := none
  parameters : List SchemaInput := []
  type : TypeRef
  reader : FieldReader
deriving DecidableEq

namespace SchemaField

/-- The parameter of a name. -/
def parameter? (field : SchemaField) (name : String) : Option SchemaInput :=
  field.parameters.find? fun parameter => parameter.name = name

end SchemaField

/-- An object type of a schema. -/
structure SchemaObject where
  name : String
  description : Option String := none
  /-- The interface that the type implements. -/
  interface : Option String := none
  fields : List SchemaField
deriving DecidableEq

namespace SchemaObject

/-- The field of a name. -/
def field? (type : SchemaObject) (name : String) : Option SchemaField :=
  type.fields.find? fun field => field.name = name

end SchemaObject

/-- A type of a schema. -/
inductive SchemaType where
  | scalar (name : String)
  | enum (name : String) (items : List String)
  /-- An interface with one field of a named type without null. -/
  | interface (name field type : String)
  | object (type : SchemaObject)
  | input (name : String) (fields : List SchemaInput)
deriving DecidableEq

namespace SchemaType

/-- The name of a type. -/
def name : SchemaType → String
  | .scalar name => name
  | .enum name _ => name
  | .interface name _ _ => name
  | .object type => type.name
  | .input name _ => name

/-- Whether fields can have the type. -/
def isOutput : SchemaType → Bool
  | .input _ _ => false
  | _ => true

/-- Whether arguments can have the type. -/
def isInput : SchemaType → Bool
  | .scalar _ | .enum _ _ | .input _ _ => true
  | _ => false

/-- Whether a field of the type needs a selection. -/
def isComposite : SchemaType → Bool
  | .object _ | .interface _ _ _ => true
  | _ => false

end SchemaType

/-- A graph together with the types it exports. -/
structure Schema where
  graph : TypeGraph
  types : OrderedMap String SchemaType

/-- Why a graph has no schema. -/
inductive SchemaError where
  | hook (error : HookError)
  | unresolvedReference (owner path : String)
  /-- A type has the name of a scalar that every schema has. -/
  | builtinName (name : String)
  /-- A type has no field. -/
  | noFields (type : String)
  /-- A field has a name that is kept for introspection. -/
  | reservedField (type field : String)
  /-- Two fields of a type have one name. -/
  | duplicateField (type field : String)
  /-- A field or parameter has a type that it cannot have. -/
  | wrongType (type field target : String)
  /-- What a type implements is not an interface. -/
  | noInterface (type interface : String)
deriving DecidableEq, Repr

/-- The wording of an error. -/
def SchemaError.message : SchemaError → String
  | .hook error => error.message
  | .unresolvedReference owner path =>
    "Reference at " ++ owner ++ "." ++ path ++ " was left unresolved"
  | .builtinName name => "The type name " ++ name ++ " is built in"
  | .noFields type => "The type " ++ type ++ " has no fields"
  | .reservedField type field => "The name " ++ field ++ " in " ++ type ++ " is reserved"
  | .duplicateField type field => "The field " ++ type ++ "." ++ field ++ " is defined twice"
  | .wrongType type field target => type ++ "." ++ field ++ " cannot have the type " ++ target
  | .noInterface type interface => type ++ " implements " ++ interface ++ ", which is no interface"

namespace Schema

/-- The root type. -/
def query : String := "Query"

/-- The scalars that every schema has. -/
def builtinScalars : List String := ["String", "Int", "Float", "Boolean", "ID"]

/-- Whether a name is kept for introspection. -/
def isReserved (name : String) : Bool := "__".toList.isPrefixOf name.toList

/-! ### Registration -/

/-- Refuses a hook name that is not registered: pre hooks first. -/
def checkHooks {ω : Type} (registry : HookRegistry ω) (names : HookNames) :
    Except SchemaError Unit :=
  if names.isEmpty then .ok ()
  else do
    let _ ← (registry.preHooks names.pre).mapError .hook
    let _ ← (registry.postHooks names.post).mapError .hook
    pure ()

/-- The schema field of an output field of the type `owner`. -/
def outputField {ω : Type} (registry : HookRegistry ω) (owner : String) (field : OutputField) :
    Except SchemaError SchemaField := do
  checkHooks registry field.hooks
  let type ← (TypeRef.ofField? field.type).mapError fun slot =>
    .unresolvedReference slot.owner slot.path
  pure
    { name := field.name, description := field.description,
      parameters := field.args.map fun arg => ⟨arg.name, .ofArg arg.type⟩,
      type, reader := .stored owner field }

/-- The schema type of an object type. -/
def objectType {ω : Type} (registry : HookRegistry ω) (type : ObjectType) :
    Except SchemaError SchemaType := do
  let fields ← type.fields.values.mapM (outputField registry type.name)
  pure <| .object
    { name := type.name, description := type.description,
      interface := type.identity.map fun _ => Identity.interface, fields }

/-- The root field for many records of a model. -/
def manyField (model : ObjectType) : SchemaField :=
  { name := Text.lowerFirst model.name ++ "Many",
    parameters := [⟨"limit", .named OutputScalar.int.name⟩, ⟨"skip", .named OutputScalar.int.name⟩],
    type := .requiredList model.name, reader := .many model }

/-- The root field for one record of a model. -/
def byIdField (model : ObjectType) : SchemaField :=
  { name := Text.lowerFirst model.name ++ "ById",
    parameters := [⟨"id", .required OutputScalar.id.name⟩],
    type := .named model.name, reader := .byId model }

/-- The stored field that the identity of a registered model is read from. -/
def identitySource? (graph : TypeGraph) (model : String) : Option String :=
  (graph.model? model).bind fun type =>
    (type.fields.get? Identity.field).map OutputField.source

/-- The two types of a connection: a count with edges, and an edge. -/
def connectionTypes (graph : TypeGraph) (connection : ConnectionType) : List SchemaType :=
  let source := (identitySource? graph connection.node).getD Identity.field
  [.object
    { name := connection.name,
      fields :=
        [{ name := "count", type := .required OutputScalar.int.name, reader := .count },
          { name := "edges", type := .requiredList connection.edge, reader := .edges }] },
   .object
    { name := connection.edge,
      fields :=
        [{ name := "node", type := .required connection.node, reader := .node source },
          { name := "cursor", type := .required OutputScalar.string.name, reader := .cursor }] }]

/-- The schema types of a named type. -/
def namedTypes {ω : Type} (graph : TypeGraph) (registry : HookRegistry ω) :
    NamedType → Except SchemaError (List SchemaType)
  | .object type => (objectType registry type).map fun type => [type]
  | .enum type => .ok [.enum type.name type.itemNames]
  | .input type =>
    .ok [.input type.name (type.fields.toList.map fun field => ⟨field.1, .ofArg field.2⟩)]
  | .connection type => .ok (connectionTypes graph type)

/-- The types that every schema registers first. -/
def baseTypes : List SchemaType :=
  OutputScalar.custom.map (fun scalar => .scalar scalar.name)
    ++ [.enum Arguments.sortDirection Arguments.sortDirections,
      .enum Arguments.logicalOperator Arguments.logicalOperators,
      .interface Identity.interface Identity.field OutputScalar.id.name]

/-- The schema type of a registered model, and its root fields. -/
def modelParts {ω : Type} (registry : HookRegistry ω) (model : ObjectType) :
    Except SchemaError (SchemaType × List SchemaField) := do
  let type ← objectType registry model
  checkHooks registry model.hooks
  pure (type, [manyField model, byIdField model])

/-- The first name that occurs twice. -/
def repeated? : List String → Option String
  | [] => none
  | name :: rest => if rest.contains name then some name else repeated? rest

/-- Every type of a graph's schema, in the order of registration. -/
def registered {ω : Type} (graph : TypeGraph) (registry : HookRegistry ω) :
    Except SchemaError (List SchemaType) := do
  let models ← (graph.models.values.map Shared.value).mapM (modelParts registry)
  let named ← (graph.types.values.map Shared.value).mapM (namedTypes graph registry)
  let rootFields := models.flatMap Prod.snd
  match repeated? (rootFields.map SchemaField.name) with
  | some name => .error (.duplicateField query name)
  | none =>
    pure (baseTypes ++ models.map Prod.fst ++ named.flatten
      ++ [.object { name := query, fields := rootFields }])

/-! ### Checks -/

/-- The type of a name. -/
def typeOf? (types : OrderedMap String SchemaType) (name : String) : Option SchemaType :=
  if builtinScalars.contains name then some (.scalar name) else types.get? name

/-- Refuses a parameter or an input field that has a reserved name or no input type. -/
def checkInput (types : OrderedMap String SchemaType) (owner : String) (input : SchemaInput) :
    Except SchemaError Unit :=
  let target := input.type.innermost
  if isReserved input.name then .error (.reservedField owner input.name)
  else if (typeOf? types target).any SchemaType.isInput then .ok ()
  else .error (.wrongType owner input.name target)

/-- Refuses a field that has a reserved name or no output type, and its wrong parameters. -/
def checkField (types : OrderedMap String SchemaType) (owner : String) (field : SchemaField) :
    Except SchemaError Unit := do
  let target := field.type.innermost
  if isReserved field.name then .error (.reservedField owner field.name)
  else if (typeOf? types target).any SchemaType.isOutput then
    field.parameters.forM (checkInput types owner)
  else .error (.wrongType owner field.name target)

/-- Refuses a type that breaks a rule of schemas. -/
def checkType (types : OrderedMap String SchemaType) (type : SchemaType) :
    Except SchemaError Unit := do
  if builtinScalars.contains type.name then .error (.builtinName type.name)
  else
    match type with
    | .object object =>
      if object.fields.isEmpty then .error (.noFields object.name)
      else
        object.fields.forM (checkField types object.name)
        match object.interface with
        | none => pure ()
        | some interface =>
          match types.get? interface with
          | some (.interface _ _ _) => pure ()
          | _ => .error (.noInterface object.name interface)
    | .input name fields => fields.forM (checkInput types name)
    | .scalar _ | .enum _ _ | .interface _ _ _ => pure ()

/-- The schema of a graph, with hooks known to a registry. -/
def ofGraph {ω : Type} (graph : TypeGraph) (registry : HookRegistry ω) :
    Except SchemaError Schema := do
  let all ← registered graph registry
  let types := OrderedMap.ofList (all.map fun type => (type.name, type))
  types.values.forM (checkType types)
  pure { graph, types }

/-- The type of a name. -/
def type? (schema : Schema) (name : String) : Option SchemaType :=
  typeOf? schema.types name

/-- The object type of a name. -/
def object? (schema : Schema) (name : String) : Option SchemaObject :=
  match schema.type? name with
  | some (.object type) => some type
  | _ => none

/-- The root type. -/
def root? (schema : Schema) : Option SchemaObject := schema.object? query

end Schema

end ModelGraph
