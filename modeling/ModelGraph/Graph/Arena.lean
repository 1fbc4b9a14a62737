import ModelGraph.Graph.Arguments

/-!
# Laying out types

The first phase of synthesis. It turns declared fields into output fields and collects the types
they need in an arena. A reference leaves a slot behind, since its target may come later.

Hidden and reserved fields are left out. A nested or embedded shape that keeps no field is left out
with its field. An embedded model has one type per run, laid out where it is met first.

## Main definitions

- `SynthSettings` — identity fields and the mark of reserved names
- `Arena` — the types laid out so far
- `Arena.fields` — the output fields of declared fields
- `Arena.addModel` — the root type of a model
-/

namespace ModelGraph

/-- What synthesis can be told. -/
structure SynthSettings where
  /-- The declared field that the identity field is read from, when there is one. -/
  identityField : String := "id"
  /-- The stored field that it is read from otherwise. -/
  legacyIdentityField : String := "_id"
  /-- Fields whose names start like this never reach the output types. -/
  reserved : String := "__"
deriving DecidableEq, Repr

/-- The types of one run, as far as they are laid out. -/
structure Arena where
  /-- The root types, by type name. -/
  roots : OrderedMap String ObjectType := ∅
  /-- The model names of the root types. -/
  rootModels : OrderedMap String String := ∅
  /-- The nested and embedded types that are finished. -/
  objects : OrderedMap String ObjectType := ∅
  /-- The embedded models met so far. -/
  embedded : List String := []
  /-- The embedded types that kept no field. -/
  hollow : List String := []
  enums : OrderedMap String EnumType := ∅
  inputs : Mirrors := ∅
  connections : OrderedMap String ConnectionType := ∅
  /-- The slots left behind, in order. -/
  pending : List ReferenceSlot := []

namespace Arena

/-- Whether a declared field is left out. -/
def isExcluded (settings : SynthSettings) (name : String) (hidden : Bool) : Bool :=
  hidden || settings.reserved.toList.isPrefixOf name.toList

/-- The type of a scalar field of the type `parent`: strings with a fixed set of stored values are
an enum. -/
def scalarType (parent field : String) (kind : ScalarKind) (values : List String) :
    StateM Arena FieldType :=
  if values.isEmpty || kind != .string then
    pure (.scalar (.ofKind kind))
  else do
    let name := Naming.enumType parent field
    let type : EnumType := ⟨name, values.map fun value => ⟨Naming.sanitize value, value⟩⟩
    modify fun arena => { arena with enums := arena.enums.insert name type }
    pure (.enum name)

/-- Adds a finished nested or embedded type; one without fields is not kept. -/
def addObject (name : String) (embedded : Bool) (fields : OrderedMap String OutputField) :
    StateM Arena (Option FieldType) :=
  if fields.isEmpty then do
    if embedded then
      modify fun arena => { arena with hollow := name :: arena.hollow }
    pure none
  else do
    modify fun arena =>
      { arena with objects := arena.objects.insert name { name, fields, embedded } }
    pure (some (.object name))

/-- Leaves a slot behind. -/
def addSlot (slot : ReferenceSlot) : StateM Arena FieldType := do
  modify fun arena => { arena with pending := arena.pending ++ [slot] }
  pure (.unresolved slot)

/-- The arguments of a field of the given type; a slot has none. -/
def argumentsOf (type : FieldType) : StateM Arena (List Argument) :=
  if type.isUnresolved then pure []
  else do
    let arena ← get
    let (args, inputs) := (Arguments.derive arena.objects type).run arena.inputs
    set { arena with inputs }
    pure args

/-- Announces an embedded model. When it was met before, its type is not laid out again: the result
is that type, unless it kept no field. -/
def meetEmbedded (model : String) : StateM Arena (Option (Option FieldType)) := do
  let arena ← get
  let name := Naming.embeddedType model
  if arena.embedded.contains model then
    pure (some (if arena.hollow.contains name then none else some (.object name)))
  else
    set { arena with embedded := model :: arena.embedded }
    pure none

mutual

/-- The output fields of declared fields of the type `typeName`, added to those before. `owner` is
the root type and `path` the dotted path from it. -/
def fields (settings : SynthSettings) (owner typeName path : String) :
    List FieldDecl → OrderedMap String OutputField → StateM Arena (OrderedMap String OutputField)
  | [], done => pure done
  | decl :: rest, done => do
    match ← field settings owner typeName path decl with
    | some output => fields settings owner typeName path rest (done.insert output.name output)
    | none => fields settings owner typeName path rest done

/-- The output field of a declared field, unless it is left out. -/
def field (settings : SynthSettings) (owner typeName path : String) :
    FieldDecl → StateM Arena (Option OutputField)
  | ⟨source, shape, nonNull, hidden, description, hooks⟩ =>
    if isExcluded settings source hidden then pure none
    else do
      match ← shapeType settings owner typeName (Path.child path source) source nonNull shape with
      | none => pure none
      | some type =>
        let type := if nonNull && !type.isUnresolved then type.asNonNull else type
        let args ← argumentsOf type
        let name := Naming.sanitize source
        pure (some { name, source, type, description, args, hooks, identity := false })

/-- The type of a field's shape, if the shape keeps a field. -/
def shapeType (settings : SynthSettings) (owner typeName path source : String) (nonNull : Bool) :
    FieldShape FieldDecl → StateM Arena (Option FieldType)
  | .scalar kind values => do
    let type ← scalarType typeName source kind values
    pure (some type)
  | .list element => do
    let type ← elementType settings owner typeName path source element
    pure (type.map .list)
  | .nested decls => do
    let name := Naming.nestedType typeName source
    let done ← fields settings owner name path decls ∅
    addObject name false done
  | .embedded model decls => do
    match ← meetEmbedded model with
    | some known => pure known
    | none =>
      let name := Naming.embeddedType model
      let done ← fields settings owner name path decls ∅
      addObject name true done
  | .reference target cardinality => do
    let type ← addSlot { owner, path, target, cardinality, nonNull }
    pure (some type)

/-- The type of a list's element shape, if the shape keeps a field. -/
def elementType (settings : SynthSettings) (owner typeName path source : String) :
    ElementShape FieldDecl → StateM Arena (Option FieldType)
  | .scalar kind values => do
    let type ← scalarType typeName source kind values
    pure (some type)
  | .nested decls => do
    let name := Naming.nestedType typeName source
    let done ← fields settings owner name path decls ∅
    addObject name false done
  | .embedded model decls => do
    match ← meetEmbedded model with
    | some known => pure known
    | none =>
      let name := Naming.embeddedType model
      let done ← fields settings owner name path decls ∅
      addObject name true done

end

/-- The stored field that the identity of a model is read from. -/
def identitySource (settings : SynthSettings) (model : ModelDecl) : String :=
  if (model.field? settings.identityField).isSome then settings.identityField
  else settings.legacyIdentityField

/-- Whether a declared field takes the name of the identity field; it only feeds that field. -/
def isIdentityDecl (decl : FieldDecl) : Bool :=
  Naming.sanitize decl.name = Identity.field

/-- Lays out a model: its identity field comes first, then its declared fields. -/
def addModel (settings : SynthSettings) (identity : Identity) (model : ModelDecl) :
    StateM Arena Unit := do
  let name := Naming.sanitize model.name
  let decls := model.fields.filter fun decl => !isIdentityDecl decl
  let identityField := OutputField.ofIdentity (identitySource settings model)
  let declared ← fields settings name name "" decls ∅
  let fields := (OrderedMap.insert ∅ Identity.field identityField).insertMany declared.toList
  let root : ObjectType :=
    { name, description := model.description, fields, identity := some identity,
      hooks := model.hooks }
  modify fun arena =>
    { arena with
      roots := arena.roots.insert name root
      rootModels := arena.rootModels.insert name model.name }

end Arena

end ModelGraph
