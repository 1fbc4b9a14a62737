import ModelGraph.Graph.Types
import ModelGraph.Naming

/-!
# Filter and sort arguments

Scalar, enum and list-of-scalar fields take comparison operators, a logical operator and sort
arguments. List-of-object fields take `all`, `size` and `elemMatch`, typed by an input that mirrors
the element type. Each object has one mirror, shared by all fields that list it.

## Main definitions

- `Arguments.comparison` — the arguments of a field with comparable values
- `Mirrors` — the mirrors built so far, by input name
- `Mirrors.mirror` — the mirror of an object type, built on first use
- `Arguments.derive` — the arguments of a field type
-/

namespace ModelGraph

namespace Arguments

/-- The enum of sort directions. -/
def sortDirection : String := "SortDirection"

/-- The items of the enum of sort directions. -/
def sortDirections : List String := ["ASC", "DESC"]

/-- The enum of logical operators. -/
def logicalOperator : String := "LogicalOperator"

/-- The items of the enum of logical operators. -/
def logicalOperators : List String := ["AND", "OR", "NOT", "NOR"]

/-- The comparison arguments, in order; the last two take lists. -/
def comparisons : List String := ["eq", "gt", "gte", "lt", "lte", "ne", "in", "nin"]

/-- The argument that picks the logical operator. -/
def op : String := "op"

/-- The argument that picks the sort direction. -/
def sort : String := "sort"

/-- The argument that gives the sort priority. -/
def sortOrder : String := "sortOrder"

/-- The arguments of a field whose values have the named type. -/
def comparison (element : String) : List Argument :=
  (comparisons.map fun name =>
    if name = "in" ∨ name = "nin" then ⟨name, .listOf element⟩ else ⟨name, .named element⟩)
    ++ [⟨op, .named logicalOperator⟩, ⟨sort, .named sortDirection⟩,
      ⟨sortOrder, .named OutputScalar.int.name⟩]

/-- The arguments of a list of objects with the given mirror. -/
def array (mirror : Option String) : List Argument :=
  let size : Argument := ⟨"size", .named OutputScalar.int.name⟩
  match mirror with
  | some name => [⟨"all", .listOf name⟩, size, ⟨"elemMatch", .named name⟩]
  | none => [size]

end Arguments

/-- The input mirrors built so far, by input name. -/
abbrev Mirrors := OrderedMap String InputType

namespace Mirrors

/-- How many steps the search for the input of a type takes before it meets an object. -/
def depth : FieldType → Nat
  | .nonNull inner => depth inner + 1
  | .list element => depth element + 1
  | _ => 1

/-- How many steps the fields of an object take. -/
def steps : List OutputField → Nat
  | [] => 0
  | field :: rest => depth field.type + 1 + steps rest

/-- How many steps the fields of all objects of a map take. -/
def allSteps (objects : OrderedMap String ObjectType) : Nat :=
  objects.total fun source => steps source.fields.values + 1

theorem allSteps_erase_le {objects : OrderedMap String ObjectType} {object : String}
    {source : ObjectType} (h : objects.get? object = some source) :
    allSteps (objects.erase object) + (steps source.fields.values + 1) ≤ allSteps objects :=
  OrderedMap.total_erase_le _ h

mutual

/-- The name of the mirror of an object type, built on first use. There is none while the object
has no finished type, or when no field of it can be matched.

A mirror is announced before its fields are visited, so a type that contains itself refers to the
announced name; `available` holds the objects that are not announced on the way here. -/
def mirror (objects available : OrderedMap String ObjectType) (object : String) :
    StateM Mirrors (Option String) := do
  let name := Naming.inputType object
  if (← get).contains name then
    pure (some name)
  else
    match _found : available.get? object with
    | none => pure none
    | some source =>
      modify fun mirrors => mirrors.insert name ⟨name, ∅⟩
      let fields ← mirrorFields objects (available.erase object) source.fields.values ∅
      if fields.isEmpty then
        modify fun mirrors => mirrors.erase name
        pure none
      else
        modify fun mirrors => mirrors.insert name ⟨name, fields⟩
        pure (some name)
-- The fields of an object that is met leave the objects still available.
termination_by allSteps available
decreasing_by
  have hleft := allSteps_erase_le _found
  omega

/-- The mirrors of an object's fields, added to those of the fields before. -/
def mirrorFields (objects available : OrderedMap String ObjectType) (fields : List OutputField)
    (mirrored : OrderedMap String ArgType) : StateM Mirrors (OrderedMap String ArgType) :=
  match fields with
  | [] => pure mirrored
  | field :: rest => do
    match ← inputType objects available field.type with
    | some type => mirrorFields objects available rest (mirrored.insert field.name type)
    | none => mirrorFields objects available rest mirrored
termination_by allSteps available + steps fields
decreasing_by all_goals (simp only [steps]; omega)

/-- The input type that matches values of a field type. References match by id. -/
def inputType (objects available : OrderedMap String ObjectType) (type : FieldType) :
    StateM Mirrors (Option ArgType) :=
  match type with
  | .nonNull inner => inputType objects available inner
  | .list element => do
    let inner ← inputType objects available element
    pure (inner.map .list)
  | .scalar kind => pure (some (.named kind.name))
  | .enum name => pure (some (.named name))
  | .object name => do
    match ← mirror objects available name with
    | some mirror => pure (some (.named mirror))
    | none => pure (if objects.contains name then none else some (.named OutputScalar.id.name))
  | .unresolved slot =>
    pure <| some <|
      match slot.cardinality with
      | .single => .named OutputScalar.id.name
      | .plural => .listOf OutputScalar.id.name
  | .connection _ => pure none
termination_by allSteps available + depth type
decreasing_by all_goals (simp only [depth]; omega)

end

end Mirrors

namespace Arguments

/-- The arguments of a field of the given type, over the object types finished so far. -/
def derive (objects : OrderedMap String ObjectType) (type : FieldType) :
    StateM Mirrors (List Argument) :=
  match type.nullable with
  | .scalar kind => pure (comparison kind.name)
  | .enum name => pure (comparison name)
  | .list element =>
    match element.nullable with
    | .scalar kind => pure (comparison kind.name)
    | .enum name => pure (comparison name)
    | .object name => do
      let mirror ← Mirrors.mirror objects objects name
      pure (array mirror)
    | _ => pure []
  | _ => pure []

end Arguments

end ModelGraph
