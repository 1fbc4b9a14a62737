import ModelGraph.Graph.Types
import ModelGraph.Query.Compile

/-!
# Enum items in filters

Requests name enum items, and records hold the stored values that the items stand for. A filter that
is meant for records therefore has every item at an enum path replaced by its stored value.

## Main definitions

- `EnumType.restore` — a value with the items of an enum replaced
- `CompiledQuery.restoreEnums` — a query with the items in its filter replaced
-/

namespace ModelGraph

namespace EnumType

mutual

/-- Replaces an item by its stored value, in lists too. What is no item stays. -/
def restore (type : EnumType) : Json → Json
  | .string item => .string ((type.sourceOf? item).getD item)
  | .array items => .array (restoreItems type items)
  | value => value

/-- Replaces the items of a list. -/
def restoreItems (type : EnumType) : List Json → List Json
  | [] => []
  | item :: rest => restore type item :: restoreItems type rest

end

end EnumType

namespace TypeGraph

/-- The enum of the field at a dotted path below a root, under lists and non-null wrappers. -/
def enumAt? (graph : TypeGraph) (root path : String) : Option EnumType :=
  (graph.fieldAt? root path).bind fun field =>
    match field.type.innermost with
    | .enum name => graph.enum? name
    | _ => none

end TypeGraph

/-- Replaces the enum items in the filter of a query on a model. -/
def CompiledQuery.restoreEnums (graph : TypeGraph) (model : String) (query : CompiledQuery) :
    CompiledQuery :=
  { query with
    filter := query.filter.mapWithKey fun path node =>
      match graph.enumAt? model path with
      | some type => node.mapValues type.restore
      | none => node }

end ModelGraph
