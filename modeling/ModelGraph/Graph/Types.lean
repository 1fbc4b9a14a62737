import ModelGraph.Graph.FieldType
import ModelGraph.OrderedMap
import ModelGraph.Text.Path

/-!
# Named types and the type graph

The types that synthesis makes: objects for models and for nested and embedded shapes, enums, input
mirrors and connections. A graph keeps the registered models apart from all other named types.

Types can be shared between graphs through caches, so every type in a graph carries its `Origin`:
two entries are one and the same shared type exactly when their origins agree.

## Main definitions

- `Identity` — the mark of the caller whose models can be looked up by `id`
- `OutputField`, `ObjectType`, `EnumType`, `InputType`, `ConnectionType`, `NamedType`
- `Origin`, `Shared` — shared values
- `ModelTypes` — a model's root with all types that it reaches
- `TypeGraph` — registered models and the other named types
-/

namespace ModelGraph

/-- The mark that one caller puts on the models made for it. -/
structure Identity where
  label : Nat
deriving DecidableEq, Repr

namespace Identity

/-- The interface that marked types implement. -/
def interface : String := "Node"

/-- The field that the interface asks for. -/
def field : String := "id"

end Identity

/-- A field of an output type. -/
structure OutputField where
  name : String
  /-- The stored field that the value is read from. -/
  source : String
  type : FieldType
  description : Option String
  args : List Argument
  hooks : HookNames
  identity : Bool
deriving DecidableEq, Repr

namespace OutputField

/-- The identity field, read from the given stored field. -/
def ofIdentity (source : String) : OutputField where
  name := Identity.field
  source := source
  type := .nonNull (.scalar .id)
  description := some "Globally unique identifier"
  args := []
  hooks := {}
  identity := true

/-- The first argument of a name. -/
def arg? (field : OutputField) (name : String) : Option Argument :=
  field.args.find? fun arg => arg.name = name

end OutputField

/-- An object type. -/
structure ObjectType where
  name : String
  description : Option String := none
  fields : OrderedMap String OutputField
  /-- The mark of the caller, on registered models only. -/
  identity : Option Identity := none
  embedded : Bool := false
  /-- The hooks around the root resolvers of a model. -/
  hooks : HookNames := {}
deriving DecidableEq

namespace ObjectType

/-- The names of the fields, in order. -/
def fieldNames (type : ObjectType) : List String := type.fields.keys

/-- Whether the type carries a mark. -/
def hasIdentity (type : ObjectType) (identity : Identity) : Bool :=
  type.identity = some identity

/-- The type with another mark and nothing else changed. -/
def withIdentity (type : ObjectType) (identity : Identity) : ObjectType :=
  { type with identity := some identity }

end ObjectType

/-- An item of an enum and the stored value that it stands for. -/
structure EnumValue where
  name : String
  source : String
deriving DecidableEq, Repr

/-- An enum. Several stored values may share one item. -/
structure EnumType where
  name : String
  values : List EnumValue
deriving DecidableEq, Repr

namespace EnumType

/-- The items, each once, in order of first appearance. -/
def itemNames (type : EnumType) : List String :=
  (type.values.map EnumValue.name).eraseDups

/-- The item of a stored value. -/
def itemFor? (type : EnumType) (source : String) : Option String :=
  (type.values.find? fun value => value.source = source).map EnumValue.name

/-- The first stored value of an item. -/
def sourceOf? (type : EnumType) (item : String) : Option String :=
  (type.values.find? fun value => value.name = item).map EnumValue.source

end EnumType

/-- The input that matches objects of a type, field by field. -/
structure InputType where
  name : String
  fields : OrderedMap String ArgType
deriving DecidableEq

/-- A page of a plural reference: a count and edges to the referenced records. -/
structure ConnectionType where
  name : String
  edge : String
  /-- The type name of the referenced model. -/
  node : String
deriving DecidableEq, Repr

/-- A named type other than a registered model. -/
inductive NamedType where
  | object (type : ObjectType)
  | enum (type : EnumType)
  | input (type : InputType)
  | connection (type : ConnectionType)
deriving DecidableEq

namespace NamedType

/-- The name of a type. -/
def name : NamedType → String
  | .object type => type.name
  | .enum type => type.name
  | .input type => type.name
  | .connection type => type.name

/-- The kind of a type. -/
def kind : NamedType → String
  | .object _ => "object"
  | .enum _ => "enum"
  | .input _ => "input"
  | .connection _ => "connection"

end NamedType

/-! ## Sharing -/

/-- The place in a run where a shared value was made. -/
inductive Place where
  | graph
  | root (name : String)
  | type (name : String)
  /-- The copy of a cached root, for the model at an index of the run. -/
  | rebound (index : Nat)
  /-- The description of the model at an index. -/
  | description (index : Nat)
deriving DecidableEq, Repr

/-- Where a shared value comes from: the run that made it and the place in that run. -/
structure Origin where
  run : Nat
  place : Place
deriving DecidableEq, Repr

/-- A value that graphs and caches share. -/
structure Shared (α : Type) where
  origin : Origin
  value : α
deriving DecidableEq

/-- The types of one model: its root and every other named type that the root reaches. -/
structure ModelTypes where
  /-- The model name. -/
  key : String
  root : Shared ObjectType
  dependents : List (Shared NamedType)
deriving DecidableEq

/-- The types with another mark on the root, which becomes a value of its own. -/
def ModelTypes.withIdentity (types : ModelTypes) (identity : Identity) (origin : Origin) :
    ModelTypes :=
  { types with root := ⟨origin, types.root.value.withIdentity identity⟩ }

/-! ## Graphs -/

/-- Registered models, and the nested, embedded, enum, input and connection types they use. -/
structure TypeGraph where
  identity : Identity
  models : OrderedMap String (Shared ObjectType)
  types : OrderedMap String (Shared NamedType)
deriving DecidableEq

namespace TypeGraph

/-- The registered model of a name. -/
def model? (graph : TypeGraph) (name : String) : Option ObjectType :=
  (graph.models.get? name).map Shared.value

/-- The named type of a name that is not a model. -/
def type? (graph : TypeGraph) (name : String) : Option NamedType :=
  (graph.types.get? name).map Shared.value

/-- The object type of a name: a registered model, or else a nested or embedded type. -/
def object? (graph : TypeGraph) (name : String) : Option ObjectType :=
  match graph.model? name with
  | some type => some type
  | none =>
    match graph.type? name with
    | some (.object type) => some type
    | _ => none

/-- The enum of a name. -/
def enum? (graph : TypeGraph) (name : String) : Option EnumType :=
  match graph.type? name with
  | some (.enum type) => some type
  | _ => none

/-- The input of a name. -/
def input? (graph : TypeGraph) (name : String) : Option InputType :=
  match graph.type? name with
  | some (.input type) => some type
  | _ => none

/-- The connection of a name. -/
def connection? (graph : TypeGraph) (name : String) : Option ConnectionType :=
  match graph.type? name with
  | some (.connection type) => some type
  | _ => none

/-- The object type that values of a field type are shaped like. -/
def objectOf? (graph : TypeGraph) (type : FieldType) : Option ObjectType :=
  type.objectName?.bind graph.object?

/-- The field at the end of a list of field names, starting from an object type. -/
def fieldAlong? (graph : TypeGraph) (current : ObjectType) : List String → Option OutputField
  | [] => none
  | [name] => current.fields.get? name
  | name :: rest =>
    (current.fields.get? name).bind fun field =>
      (graph.objectOf? field.type).bind fun next => fieldAlong? graph next rest

/-- The field at a dotted path of output names below a root. -/
def fieldAt? (graph : TypeGraph) (root path : String) : Option OutputField :=
  (graph.object? root).bind fun type => graph.fieldAlong? type (Path.segments path)

end TypeGraph

end ModelGraph
