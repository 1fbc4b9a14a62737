import ModelGraph.Request.Document
import ModelGraph.Schema.Basic

/-!
# Values for parameters

Which values a parameter of a schema type takes, and at which types the variables of an argument
stand.

## Main definitions

- `TypeRef.isSubtype` — whether values of one type can stand where another type is asked for
- `Schema.accepts` — whether a value suits a type
- `Schema.positions` — the variables of an argument with the types at their places
-/

namespace ModelGraph

namespace TypeRef

/-- A type without its outer non-null wrapper. -/
def nullable : TypeRef → TypeRef
  | .nonNull inner => nullable inner
  | type => type

/-- Whether a value of the type `sub` can stand where `type` is asked for: names agree, lists stand
for lists, and only what is never null stands where null is refused. -/
def isSubtype (type sub : TypeRef) : Bool :=
  match type, sub with
  | .nonNull type, .nonNull sub => isSubtype type sub
  | .named name, .nonNull sub => isSubtype (.named name) sub
  | .list element, .nonNull sub => isSubtype (.list element) sub
  | .named name, .named other => name = other
  | .list element, .list other => isSubtype element other
  | _, _ => false

/-- The type of a variable. -/
def ofVariable : VariableType → TypeRef
  | .named name required => if required then .nonNull (.named name) else .named name
  | .list element required =>
    if required then .nonNull (.list (ofVariable element)) else .list (ofVariable element)

/-- Whether a value suits a type, for a value whose shape is known: whether it is null, whether its
items suit an element type when it is a list, and whether it suits a type of a given name. A value
that is no list stands for a list of itself, and null suits everything that does not refuse it. -/
def suits (isNull : Bool) (items? : Option (TypeRef → Bool)) (named : String → Bool) :
    TypeRef → Bool
  | .nonNull inner => !isNull && suits isNull items? named inner
  | .named name => isNull || named name
  | .list element =>
    match items? with
    | some items => items element
    | none => isNull || suits isNull items? named element

end TypeRef

namespace Schema

/-- Whether a scalar takes a value that is neither null nor an object. Scalars that are not built in
take everything. -/
def scalarAccepts (scalar : String) (value : ConstValue) : Bool :=
  match OutputScalar.ofName? scalar, value with
  | some .string, .string _ => true
  | some .int, .number number => number.int64?.isSome
  | some .float, .number _ => true
  | some .boolean, .bool _ => true
  | some .id, .string _ => true
  | some .id, .number number => number.int64?.isSome
  | some .string, _ | some .int, _ | some .float, _ | some .boolean, _ | some .id, _ => false
  | _, _ => true

/-- Whether an enum has a value as an item, written as an item or as a string. -/
def enumAccepts (items : List String) : ConstValue → Bool
  | .enum item | .string item => items.contains item
  | _ => false

/-- Whether a named type takes a value that is not null; `members` says so for the members of an
object. An input takes everything that is no object. -/
def namedAccepts (schema : Schema) (value : ConstValue)
    (members : Option (List SchemaInput → Bool)) (name : String) : Bool :=
  match schema.type? name with
  | some (.scalar scalar) => scalarAccepts scalar value
  | some (.enum _ items) => enumAccepts items value
  | some (.input _ fields) =>
    match members with
    | some members => members fields
    | none => true
  | _ => false

mutual

/-- Whether a value suits a type. -/
def accepts (schema : Schema) : ConstValue → TypeRef → Bool
  | .null, type => type.suits true none fun _ => true
  | .list items, type =>
    type.suits false (some (itemsAccepted schema items))
      (namedAccepts schema (.list items) none)
  | .object fields, type =>
    type.suits false none
      (namedAccepts schema (.object fields) (some (membersAccepted schema fields)))
  | .number value, type => type.suits false none (namedAccepts schema (.number value) none)
  | .string value, type => type.suits false none (namedAccepts schema (.string value) none)
  | .bool value, type => type.suits false none (namedAccepts schema (.bool value) none)
  | .enum item, type => type.suits false none (namedAccepts schema (.enum item) none)
  | .binary bytes, type => type.suits false none (namedAccepts schema (.binary bytes) none)

/-- Whether every item of a list suits an element type. -/
def itemsAccepted (schema : Schema) : List ConstValue → TypeRef → Bool
  | [], _ => true
  | item :: rest, type => accepts schema item type && itemsAccepted schema rest type

/-- Whether every member of an object is a field of the input and suits its type. -/
def membersAccepted (schema : Schema) : List (String × ConstValue) → List SchemaInput → Bool
  | [], _ => true
  | (name, value) :: rest, inputs =>
    (match inputs.find? fun input => input.name = name with
      | some input => accepts schema value input.type
      | none => false)
      && membersAccepted schema rest inputs

end

/-! ### Places of variables -/

mutual

/-- The variables of a value for a type, with the types at their places. Below a list only a list
type says what stands there, and below an object only an input. -/
def positions (schema : Schema) : ArgValue → TypeRef → List (String × TypeRef)
  | .variable name, type => [(name, type)]
  | .list items, type =>
    match type.nullable with
    | .list element => itemPositions schema items element
    | _ => []
  | .object fields, type =>
    match type.nullable with
    | .named name =>
      match schema.type? name with
      | some (.input _ inputs) => memberPositions schema fields inputs
      | _ => []
    | _ => []
  | _, _ => []

/-- The variables of list items. -/
def itemPositions (schema : Schema) : List ArgValue → TypeRef → List (String × TypeRef)
  | [], _ => []
  | item :: rest, type => positions schema item type ++ itemPositions schema rest type

/-- The variables of the members of an object that are fields of the input. -/
def memberPositions (schema : Schema) :
    List (String × ArgValue) → List SchemaInput → List (String × TypeRef)
  | [], _ => []
  | (name, value) :: rest, inputs =>
    (match inputs.find? fun input => input.name = name with
      | some input => positions schema value input.type
      | none => [])
      ++ memberPositions schema rest inputs

end

end Schema

end ModelGraph
