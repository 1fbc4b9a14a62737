import ModelGraph.Model.Basic

/-!
# Types of fields and arguments

The output type of a field names scalars, enums, objects and connections under lists and non-null
wrappers; until its target is known, a reference is a slot. Arguments name their types under lists.

## Main definitions

- `OutputScalar` — the canonical scalars
- `ReferenceSlot` — a reference whose target type is not known yet
- `FieldType`, `ArgType`, `Argument`
-/

namespace ModelGraph

/-- The canonical output scalars. -/
inductive OutputScalar where
  | string
  | float
  | int
  | boolean
  | id
  | date
  | buffer
  | json
deriving DecidableEq, Repr

namespace OutputScalar

/-- The name of a scalar in the schema. -/
def name : OutputScalar → String
  | string => "String"
  | float => "Float"
  | int => "Int"
  | boolean => "Boolean"
  | id => "ID"
  | date => "Date"
  | buffer => "Buffer"
  | json => "JSON"

/-- All scalars. -/
def all : List OutputScalar := [string, float, int, boolean, id, date, buffer, json]

/-- The scalars that a schema has to declare itself. -/
def custom : List OutputScalar := [date, buffer, json]

/-- The scalar of a name. -/
def ofName? (name : String) : Option OutputScalar :=
  all.find? fun scalar => scalar.name = name

/-- Whether a name is that of a scalar. -/
def isName (name : String) : Bool := (ofName? name).isSome

/-- The scalar that a storage kind is read as. -/
def ofKind : ScalarKind → OutputScalar
  | .string => string
  | .number => float
  | .date => date
  | .buffer => buffer
  | .boolean => boolean
  | .objectId => id
  | .other _ => json

end OutputScalar

/-- A reference found while types are laid out, before its target type is known. -/
structure ReferenceSlot where
  /-- The root type that the path starts from. -/
  owner : String
  /-- The dotted path of declared names below the owner. -/
  path : String
  /-- The model name the reference aims at. -/
  target : String
  cardinality : Cardinality
  nonNull : Bool
deriving DecidableEq, Repr

/-- The type of an output field. -/
inductive FieldType where
  | scalar (kind : OutputScalar)
  | enum (name : String)
  | object (name : String)
  | connection (name : String)
  | list (element : FieldType)
  | nonNull (inner : FieldType)
  | unresolved (slot : ReferenceSlot)
deriving DecidableEq, Repr

namespace FieldType

instance : Inhabited FieldType := ⟨scalar .json⟩

/-- The type without null; a second wrapper is not added. -/
def asNonNull : FieldType → FieldType
  | .nonNull inner => .nonNull inner
  | type => .nonNull type

/-- Strips one outer non-null wrapper. -/
def nullable : FieldType → FieldType
  | .nonNull inner => inner
  | type => type

/-- Strips all lists and non-null wrappers. -/
def innermost : FieldType → FieldType
  | .nonNull inner => innermost inner
  | .list element => innermost element
  | type => type

/-- The name of the object type at the core. -/
def objectName? (type : FieldType) : Option String :=
  match type.innermost with
  | .object name => some name
  | _ => none

/-- Whether the type is a list, possibly non-null. -/
def isList (type : FieldType) : Bool :=
  match type.nullable with
  | .list _ => true
  | _ => false

/-- Whether the core is a slot. -/
def isUnresolved (type : FieldType) : Bool :=
  match type.innermost with
  | .unresolved _ => true
  | _ => false

/-- The written form of a type. -/
def text : FieldType → String
  | .scalar kind => "scalar:" ++ kind.name
  | .enum name => "enum:" ++ name
  | .object name => "object:" ++ name
  | .connection name => "connection:" ++ name
  | .list element => "[" ++ text element ++ "]"
  | .nonNull inner => text inner ++ "!"
  | .unresolved slot =>
    "unresolved:" ++ slot.owner ++ "/" ++ slot.path ++ ">" ++ slot.target ++ ":"
      ++ slot.cardinality.name ++ ":" ++ (if slot.nonNull then "true" else "false")

end FieldType

/-- The type of an argument or input field. -/
inductive ArgType where
  | named (name : String)
  | list (element : ArgType)
deriving DecidableEq, Repr

namespace ArgType

/-- A list of a named type. -/
def listOf (name : String) : ArgType := .list (.named name)

/-- The name under all lists. -/
def innermost : ArgType → String
  | .named name => name
  | .list element => innermost element

/-- The written form of an argument type. -/
def text : ArgType → String
  | .named name => name
  | .list element => "[" ++ text element ++ "]"

end ArgType

/-- An argument of an output field. -/
structure Argument where
  name : String
  type : ArgType
deriving DecidableEq, Repr

end ModelGraph
