import ModelGraph.Schema.Basic

/-!
# Values of fields

How stored JSON becomes the value of a field: a single value stands for a list of itself, a stored
enum value becomes its item, and a bare id in the place of a model's record becomes a record with
nothing but the id. A connection is read from the list of its stored references.

## Main definitions

- `FieldValue` — a leaf, a list, or a record whose fields are still to be read
- `FieldValue.ofStored?` — the value of a field type
- `Connection.count`, `Connection.edges`, `Connection.node?`, `Connection.cursor` — the parts of a
  connection
-/

namespace ModelGraph

/-- A value on its way into a response. -/
inductive FieldValue where
  /-- A value that goes out as it is. -/
  | leaf (value : Json)
  | list (items : List FieldValue)
  /-- A stored value whose fields are read from it. -/
  | record (value : Json)

namespace FieldValue

/-- A record that holds an id and nothing else. -/
def bareRecord (source : String) (id : Json) : Json := .object [(source, id)]

/-- The record that a stored reference to an object type stands for. -/
def reference (graph : TypeGraph) (type : String) (value : Json) : Json :=
  match value, Schema.identitySource? graph type with
  | .object members, _ => .object members
  | value, none => value
  | value, some source => bareRecord source value

/-- The value of a field type that stored JSON stands for; `none` for null. Items that are null
stay in their list. -/
def ofStored? (graph : TypeGraph) : FieldType → Json → Option FieldValue
  | _, .null => none
  | .nonNull inner, value => ofStored? graph inner value
  | .list element, .array items =>
    some (.list (items.map fun item => (ofStored? graph element item).getD (.leaf .null)))
  | .list element, value => some (.list [(ofStored? graph element value).getD (.leaf .null)])
  | .scalar _, value => some (.leaf value)
  | .enum name, .string source =>
    some (.leaf (.string (((graph.enum? name).bind fun type => type.itemFor? source).getD source)))
  | .enum _, value => some (.leaf value)
  | .object name, value => some (.record (reference graph name value))
  | .connection _, value => some (.record value)
  | .unresolved _, _ => none

end FieldValue

/-! ### Connections -/

namespace Connection

/-- The member of an edge that holds the referenced record. -/
def nodeField : String := "node"

/-- The member of an edge that holds its place. -/
def cursorField : String := "cursor"

/-- The number of stored references, as a signed integer of 32 bits; what is no list has none. -/
def count (stored : Json) : Int32 := .ofNat (stored.array?.getD []).length

/-- The edge of a stored reference at an index. -/
def edge (index : Nat) (node : Json) : Json :=
  .object [(nodeField, node), (cursorField, .string (toString index))]

/-- The edges of the stored references, in order. -/
def edges (stored : Json) : List Json := (stored.array?.getD []).mapIdx edge

/-- The record of an edge: a bare id becomes a record with the id under `source`. -/
def node? (source : String) (edge : Json) : Option Json :=
  match edge.get? nodeField with
  | none | some .null => none
  | some (.object members) => some (.object members)
  | some id => some (FieldValue.bareRecord source id)

/-- The cursor of an edge. -/
def cursor (edge : Json) : String :=
  ((edge.get? cursorField).bind Json.string?).getD ""

end Connection

end ModelGraph
