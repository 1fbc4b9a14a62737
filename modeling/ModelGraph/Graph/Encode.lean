import ModelGraph.Graph.Types
import ModelGraph.Model.Encode

/-!
# Graphs as JSON

A graph with all its parts, for tools that look at graphs from outside: types are written as text,
arguments as a name and a type.

## Main definitions

- `NamedType.toJson` — a named type as JSON
- `TypeGraph.toJson` — a graph as JSON
-/

namespace ModelGraph

/-- Hook names with both of their lists. -/
def HookNames.lists (hooks : HookNames) : Json :=
  .object [("pre", .ofTexts hooks.pre), ("post", .ofTexts hooks.post)]

/-- An argument with its type. -/
def Argument.text (arg : Argument) : String := arg.name ++ ": " ++ arg.type.text

/-- An output field as JSON. -/
def OutputField.toJson (field : OutputField) : Json :=
  .object
    [("name", .string field.name), ("source", .string field.source),
      ("type", .string field.type.text), ("description", .ofText? field.description),
      ("args", .ofTexts (field.args.map Argument.text)), ("hooks", field.hooks.lists),
      ("identity", .bool field.identity)]

/-- An object type as JSON. -/
def ObjectType.toJson (type : ObjectType) : Json :=
  .object
    [("kind", .string "object"), ("name", .string type.name),
      ("description", .ofText? type.description), ("identity", .bool type.identity.isSome),
      ("embedded", .bool type.embedded), ("hooks", type.hooks.lists),
      ("fields", .array (type.fields.values.map OutputField.toJson))]

/-- An enum as JSON. -/
def EnumType.toJson (type : EnumType) : Json :=
  .object
    [("kind", .string "enum"), ("name", .string type.name),
      ("values", .array (type.values.map fun value => .ofTexts [value.name, value.source])),
      ("items", .ofTexts type.itemNames)]

/-- An input as JSON. -/
def InputType.toJson (type : InputType) : Json :=
  .object
    [("kind", .string "input"), ("name", .string type.name),
      ("fields", .ofTexts (type.fields.toList.map fun field => field.1 ++ ": " ++ field.2.text))]

/-- A connection as JSON. -/
def ConnectionType.toJson (type : ConnectionType) : Json :=
  .object
    [("kind", .string "connection"), ("name", .string type.name), ("edge", .string type.edge),
      ("node", .string type.node)]

/-- A named type as JSON. -/
def NamedType.toJson : NamedType → Json
  | .object type => type.toJson
  | .enum type => type.toJson
  | .input type => type.toJson
  | .connection type => type.toJson

/-- The members of a graph as JSON: models and other types, in order. -/
def TypeGraph.members (graph : TypeGraph) : List (String × Json) :=
  [("models", .array (graph.models.values.map fun model => model.value.toJson)),
    ("types", .array (graph.types.values.map fun type => type.value.toJson))]

/-- A graph as JSON. -/
def TypeGraph.toJson (graph : TypeGraph) : Json := .object graph.members

end ModelGraph
