import ModelGraph.Graph.Types

/-!
# The types a root reaches

A depth-first search over the names that fields, arguments and inputs mention. The name met last is
followed first.

## Main definitions

- `ObjectType.mentions`, `NamedType.mentions` — the names a type mentions
- `reachable` — the names found from a stack of names
- `dependentsOf` — the named types that a root reaches
-/

namespace ModelGraph

/-- The names that a field mentions: its own type's, then those of its arguments. -/
def OutputField.mentions (field : OutputField) : List String :=
  let own := match field.type.innermost with
    | .enum name | .object name | .connection name => [name]
    | _ => []
  own ++ field.args.map fun arg => arg.type.innermost

/-- The names that the fields of an object mention. -/
def ObjectType.mentions (type : ObjectType) : List String :=
  type.fields.values.flatMap OutputField.mentions

/-- The names that a named type mentions. Enums and connections are not followed. -/
def NamedType.mentions : NamedType → List String
  | .object type => type.mentions
  | .input type => type.fields.values.map ArgType.innermost
  | .enum _ | .connection _ => []

/-- How many names the types of a map mention. -/
def mentionCount (types : OrderedMap String (Shared NamedType)) : Nat :=
  types.total fun type => type.value.mentions.length

/-- The names found from a stack, in order of discovery. A name that stands for nothing, or that
was found before, is not among the `unseen` types. -/
def reachable (unseen : OrderedMap String (Shared NamedType)) (stack : List String) :
    List (String × Shared NamedType) :=
  match stack with
  | [] => []
  | name :: rest =>
    match _found : unseen.get? name with
    | none => reachable unseen rest
    | some type =>
      (name, type) :: reachable (unseen.erase name) (type.value.mentions.reverse ++ rest)
-- What a found type mentions moves from the unseen types to the stack.
termination_by mentionCount unseen + stack.length
decreasing_by
  · simp
  · have hmoved := OrderedMap.total_erase_le (fun type => type.value.mentions.length) _found
    simp only [mentionCount, List.length_append, List.length_reverse, List.length_cons]
    omega

/-- The named types that a root reaches, in order of discovery. -/
def dependentsOf (root : ObjectType) (types : OrderedMap String (Shared NamedType)) :
    List (Shared NamedType) :=
  (reachable types root.mentions.reverse).map Prod.snd

end ModelGraph
