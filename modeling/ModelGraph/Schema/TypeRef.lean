import ModelGraph.Graph.FieldType

/-!
# References to schema types

The type of a field or an argument in an exported schema: a name under list and non-null wrappers.

## Main definitions

- `TypeRef` — references
- `TypeRef.ofField?`, `TypeRef.ofArg` — the references of graph types
-/

namespace ModelGraph

/-- A reference to a schema type. -/
inductive TypeRef where
  | named (name : String)
  | list (element : TypeRef)
  | nonNull (inner : TypeRef)
deriving DecidableEq, Repr

namespace TypeRef

/-- The name under all wrappers. -/
def innermost : TypeRef → String
  | .named name => name
  | .list element => innermost element
  | .nonNull inner => innermost inner

/-- Whether null is no value of the type. -/
def isNonNull : TypeRef → Bool
  | .nonNull _ => true
  | _ => false

/-- The written form of a reference. -/
def text : TypeRef → String
  | .named name => name
  | .list element => "[" ++ text element ++ "]"
  | .nonNull inner => text inner ++ "!"

/-- A named type without null. -/
def required (name : String) : TypeRef := .nonNull (.named name)

/-- A list without null of values without null. -/
def requiredList (name : String) : TypeRef := .nonNull (.list (.nonNull (.named name)))

/-- The reference of an output type, or the slot that is left in it. -/
def ofField? : FieldType → Except ReferenceSlot TypeRef
  | .scalar kind => .ok (.named kind.name)
  | .enum name | .object name | .connection name => .ok (.named name)
  | .list element => (ofField? element).map .list
  | .nonNull inner => (ofField? inner).map .nonNull
  | .unresolved slot => .error slot

/-- The reference of an argument type. -/
def ofArg : ArgType → TypeRef
  | .named name => .named name
  | .list element => .list (ofArg element)

end TypeRef

end ModelGraph
