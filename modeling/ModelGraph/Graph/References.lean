import ModelGraph.Graph.Arena

/-!
# Resolving references

The second phase of synthesis. Every slot left behind is replaced, at its place, by the type that
its target turned out to have: the target's object for a single reference, a connection for a plural
one.

## Main definitions

- `SynthError` — why a run can fail
- `Arena.resolve` — replaces all slots
- `Arena.checkResolved` — refuses a slot that is left
-/

namespace ModelGraph

/-- Why synthesis can fail. -/
inductive SynthError where
  /-- Two models of the run have one key. -/
  | duplicateModel (key : String)
  /-- A type mentions a name that nothing stands for. -/
  | unknownTarget (owner path target : String)
  /-- A slot was never replaced. -/
  | unresolvedReference (owner path : String)
deriving DecidableEq, Repr

namespace SynthError

/-- The wording of an error. -/
def message : SynthError → String
  | .duplicateModel key => "Duplicate model key: " ++ key
  | .unknownTarget owner path target =>
    "Unknown reference target `" ++ target ++ "` at " ++ owner ++ "." ++ path
  | .unresolvedReference owner path =>
    "Reference at " ++ owner ++ "." ++ path ++ " was left unresolved"

end SynthError

namespace Arena

/-- The fields of the root `owner`, or of the finished type `object`. -/
def fieldsOf? (arena : Arena) (owner : String) (object : Option String) :
    Option (OrderedMap String OutputField) :=
  match object with
  | none => (arena.roots.get? owner).map ObjectType.fields
  | some name => (arena.objects.get? name).map ObjectType.fields

/-- Gives a field of an object another type. -/
def retype (object : ObjectType) (name : String) (field : OutputField) (type : FieldType) :
    ObjectType :=
  { object with fields := object.fields.insert name { field with type } }

/-- Replaces the type at the end of a list of field names, starting from the root `owner` or from
the type `object` below it. When a step is missing nothing changes. -/
def replaceAlong (arena : Arena) (owner : String) (object : Option String) (type : FieldType) :
    List String → Arena
  | [] => arena
  | [name] =>
    match object with
    | none =>
      match arena.roots.get? owner with
      | some root =>
        match root.fields.get? name with
        | some field =>
          { arena with roots := arena.roots.insert owner (retype root name field type) }
        | none => arena
      | none => arena
    | some objectName =>
      match arena.objects.get? objectName with
      | some object =>
        match object.fields.get? name with
        | some field =>
          { arena with objects := arena.objects.insert objectName (retype object name field type) }
        | none => arena
      | none => arena
  | name :: rest =>
    match (arena.fieldsOf? owner object).bind fun fields => fields.get? name with
    | some field =>
      match field.type.objectName? with
      | some next => replaceAlong arena owner (some next) type rest
      | none => arena
    | none => arena

/-- The output names of the segments of a declared path. -/
def outputPath (path : String) : List String :=
  (Path.segments path).map Naming.sanitize

/-- Adds the connection of a plural slot, unless there is one of its name. -/
def addConnection (arena : Arena) (slot : ReferenceSlot) (node : String) : Arena :=
  let name := Naming.connectionType slot.owner slot.path
  let connection := ⟨name, Naming.edgeType slot.owner slot.path, node⟩
  { arena with connections := arena.connections.insertIfNew name connection }

/-- The type that replaces a slot, once its target is known. -/
def resolvedType (slot : ReferenceSlot) (node : String) : FieldType :=
  match slot.cardinality with
  | .single => if slot.nonNull then .nonNull (.object node) else .object node
  | .plural => .nonNull (.connection (Naming.connectionType slot.owner slot.path))

/-- Replaces one slot. -/
def resolveSlot (modelNames : OrderedMap String String) (arena : Arena) (slot : ReferenceSlot) :
    Except SynthError Arena :=
  match modelNames.get? slot.target with
  | none => .error (.unknownTarget slot.owner slot.path slot.target)
  | some node =>
    let arena := match slot.cardinality with
      | .single => arena
      | .plural => arena.addConnection slot node
    .ok (arena.replaceAlong slot.owner none (resolvedType slot node) (outputPath slot.path))

/-- Replaces all slots in the order in which they were left behind. -/
def resolve (modelNames : OrderedMap String String) (arena : Arena) : Except SynthError Arena :=
  arena.pending.foldlM (resolveSlot modelNames) { arena with pending := [] }

/-- The first field of a type that is still a slot. -/
def unresolvedField? (type : ObjectType) : Option OutputField :=
  type.fields.values.find? fun field => field.type.isUnresolved

/-- Refuses types with a slot left: roots first, then the types below them. -/
def checkResolved (arena : Arena) : Except SynthError Unit :=
  (arena.roots.values ++ arena.objects.values).forM fun type =>
    match unresolvedField? type with
    | some field => .error (.unresolvedReference type.name field.name)
    | none => .ok ()

end Arena

end ModelGraph
