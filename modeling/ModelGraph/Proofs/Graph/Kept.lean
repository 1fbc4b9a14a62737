import ModelGraph.Proofs.Graph.Layout
import ModelGraph.Proofs.OrderedMap

/-!
# The fields that are kept

Which declared fields are kept does not depend on the types laid out before, only on the embedded
models met before and on those of them that kept no field. So laying out can be read as two passes:
the first picks the fields to keep, with the names of the types they need, and the second builds
their types.

## Main definitions

- `Seen` — what is remembered of embedded models
- `KeptField` — a kept field with the fields of its shape
- `KeptField.keepAll` — the kept ones of declared fields
- `KeptField.buildAll` — the output fields of kept fields

## Main statements

- `Arena.run_fields` — laying out fields is keeping and building them
-/

namespace ModelGraph

/-- What is remembered of embedded models. -/
structure Seen where
  /-- The embedded models met so far. -/
  embedded : List String := []
  /-- The embedded types that kept no field. -/
  hollow : List String := []

/-- What an output field takes over from the declared one. -/
structure FieldHead where
  source : String
  nonNull : Bool
  description : Option String
  hooks : HookNames

/-- A declared field that is kept. -/
inductive KeptField where
  /-- A field of scalars, of the items of a new enum, or of an embedded type met before. -/
  | value (head : FieldHead) (type : FieldType) (enums : List EnumType)
  /-- A field that leaves a slot behind. -/
  | reference (head : FieldHead) (target : String) (cardinality : Cardinality)
  /-- A field with a new object type, or a list of them. -/
  | shape (head : FieldHead) (inList : Bool) (object : String) (embedded : Bool)
      (fields : List KeptField)

/-- A type, or a list of it. -/
def FieldType.listIf (inList : Bool) (type : FieldType) : FieldType :=
  if inList then .list type else type

@[simp] theorem map_listIf_false (type : Option FieldType) :
    type.map (FieldType.listIf false) = type := by
  cases type <;> rfl

namespace KeptField

/-! ### Keeping -/

/-- The kept field of scalars. -/
def ofScalar (head : FieldHead) (inList : Bool) (typeName : String) (kind : ScalarKind)
    (values : List String) : KeptField :=
  if values.isEmpty || kind != .string then
    .value head (.listIf inList (.scalar (.ofKind kind))) []
  else
    let name := Naming.enumType typeName head.source
    .value head (.listIf inList (.enum name))
      [⟨name, values.map fun value => ⟨Naming.sanitize value, value⟩⟩]

/-- The kept field of a nested shape, if the shape keeps a field. -/
def ofNested (head : FieldHead) (inList : Bool) (object : String) :
    List KeptField → Option KeptField
  | [] => none
  | kept => some (.shape head inList object false kept)

/-- The kept field of an embedded shape laid out here, if the shape keeps a field. -/
def ofEmbedded (head : FieldHead) (inList : Bool) (object : String) :
    List KeptField → StateM Seen (Option KeptField)
  | [] => do
    modify fun seen => { seen with hollow := object :: seen.hollow }
    pure none
  | kept => pure (some (.shape head inList object true kept))

/-- Announces an embedded model. When it was met before, the result is its type, unless that kept no
field. -/
def meet (model : String) : StateM Seen (Option (Option FieldType)) := do
  let seen ← get
  let name := Naming.embeddedType model
  if seen.embedded.contains model then
    pure (some (if seen.hollow.contains name then none else some (.object name)))
  else
    set { seen with embedded := model :: seen.embedded }
    pure none

mutual

/-- The kept ones of declared fields of the type `typeName`. -/
def keepAll (settings : SynthSettings) (typeName : String) :
    List FieldDecl → StateM Seen (List KeptField)
  | [] => pure []
  | decl :: rest => do
    let first ← keep settings typeName decl
    let others ← keepAll settings typeName rest
    pure (first.toList ++ others)

/-- A declared field, if it is kept. -/
def keep (settings : SynthSettings) (typeName : String) :
    FieldDecl → StateM Seen (Option KeptField)
  | ⟨source, content, nonNull, isHidden, description, hooks⟩ =>
    if Arena.isExcluded settings source isHidden then pure none
    else keepShape settings typeName ⟨source, nonNull, description, hooks⟩ content

/-- A field of the given shape, if it is kept. -/
def keepShape (settings : SynthSettings) (typeName : String) (head : FieldHead) :
    FieldShape FieldDecl → StateM Seen (Option KeptField)
  | .scalar kind values => pure (some (ofScalar head false typeName kind values))
  | .list element => keepElement settings typeName head element
  | .nested decls => do
    let kept ← keepAll settings (Naming.nestedType typeName head.source) decls
    pure (ofNested head false (Naming.nestedType typeName head.source) kept)
  | .embedded model decls => do
    match ← meet model with
    | some known => pure (known.map fun type => .value head (.listIf false type) [])
    | none =>
      let kept ← keepAll settings (Naming.embeddedType model) decls
      ofEmbedded head false (Naming.embeddedType model) kept
  | .reference target cardinality => pure (some (.reference head target cardinality))

/-- A field of lists of the given shape, if it is kept. -/
def keepElement (settings : SynthSettings) (typeName : String) (head : FieldHead) :
    ElementShape FieldDecl → StateM Seen (Option KeptField)
  | .scalar kind values => pure (some (ofScalar head true typeName kind values))
  | .nested decls => do
    let kept ← keepAll settings (Naming.nestedType typeName head.source) decls
    pure (ofNested head true (Naming.nestedType typeName head.source) kept)
  | .embedded model decls => do
    match ← meet model with
    | some known => pure (known.map fun type => .value head (.listIf true type) [])
    | none =>
      let kept ← keepAll settings (Naming.embeddedType model) decls
      ofEmbedded head true (Naming.embeddedType model) kept

end

/-! ### Building -/

/-- What the output field takes over. -/
def head : KeptField → FieldHead
  | .value head _ _ | .reference head _ _ | .shape head _ _ _ _ => head

/-- The output field of a type. -/
def output (head : FieldHead) (type : FieldType) : StateM Arena OutputField := do
  let type := if head.nonNull && !type.isUnresolved then type.asNonNull else type
  let args ← Arena.argumentsOf type
  pure
    { name := Naming.sanitize head.source, source := head.source, type,
      description := head.description, args, hooks := head.hooks, identity := false }

/-- Adds enums. -/
def addEnums (enums : List EnumType) : StateM Arena Unit :=
  modify fun arena =>
    { arena with enums := arena.enums.insertMany (enums.map fun type => (type.name, type)) }

/-- Adds an object type. -/
def addShape (object : String) (embedded : Bool) (fields : OrderedMap String OutputField) :
    StateM Arena Unit :=
  modify fun arena =>
    { arena with objects := arena.objects.insert object { name := object, fields, embedded } }

mutual

/-- The type of a kept field. `owner` is the root type and `path` the dotted path of the type that
the field belongs to. -/
def buildType (owner path : String) : KeptField → StateM Arena FieldType
  | .value _ type enums => do
    addEnums enums
    pure type
  | .reference head target cardinality =>
    Arena.addSlot
      { owner, path := Path.child path head.source, target, cardinality, nonNull := head.nonNull }
  | .shape head inList object embedded kept => do
    let fields ← buildAll owner (Path.child path head.source) kept ∅
    addShape object embedded fields
    pure (.listIf inList (.object object))

/-- The output fields of kept fields, added to those before. -/
def buildAll (owner path : String) :
    List KeptField → OrderedMap String OutputField → StateM Arena (OrderedMap String OutputField)
  | [], done => pure done
  | kept :: rest, done => do
    let type ← buildType owner path kept
    let output ← output kept.head type
    buildAll owner path rest (done.insert output.name output)

end

theorem run_output (head : FieldHead) (type : FieldType) (arena : Arena) :
    (output head type).run arena =
      let type := if head.nonNull && !type.isUnresolved then type.asNonNull else type
      let (args, arena) := (Arena.argumentsOf type).run arena
      ({ name := Naming.sanitize head.source, source := head.source, type,
         description := head.description, args, hooks := head.hooks, identity := false }, arena) :=
  rfl

theorem run_addEnums (enums : List EnumType) (arena : Arena) :
    (addEnums enums).run arena = ((),
      { arena with
        enums := arena.enums.insertMany (enums.map fun type => (type.name, type)) }) := rfl

theorem run_addShape (object : String) (embedded : Bool)
    (fields : OrderedMap String OutputField) (arena : Arena) :
    (addShape object embedded fields).run arena = ((),
      { arena with
        objects := arena.objects.insert object { name := object, fields, embedded } }) := rfl

theorem run_meet (model : String) (seen : Seen) :
    (meet model).run seen =
      if model ∈ seen.embedded then
        (some (if Naming.embeddedType model ∈ seen.hollow then none
          else some (.object (Naming.embeddedType model))), seen)
      else (none, { seen with embedded := model :: seen.embedded }) := by
  simp only [meet, List.contains_iff_mem]
  change (if model ∈ seen.embedded then _ else _ : StateM Seen _).run seen = _
  split <;> rfl

end KeptField

/-! ### What is remembered while building -/

namespace Arena

/-- What an arena remembers of embedded models. -/
def seen (arena : Arena) : Seen := ⟨arena.embedded, arena.hollow⟩

/-- An arena that remembers something else of embedded models. -/
def withSeen (arena : Arena) (seen : Seen) : Arena :=
  { arena with embedded := seen.embedded, hollow := seen.hollow }

@[simp] theorem seen_withSeen (arena : Arena) (seen : Seen) : (arena.withSeen seen).seen = seen :=
  rfl

@[simp] theorem withSeen_withSeen (arena : Arena) (seen other : Seen) :
    (arena.withSeen seen).withSeen other = arena.withSeen other := rfl

@[simp] theorem withSeen_seen (arena : Arena) : arena.withSeen arena.seen = arena := rfl

/-- A computation that neither reads nor changes what is remembered of embedded models. -/
def IgnoresSeen {α : Type} (computation : StateM Arena α) : Prop :=
  ∀ (arena : Arena) (seen : Seen), computation.run (arena.withSeen seen) =
    ((computation.run arena).1, (computation.run arena).2.withSeen seen)

theorem IgnoresSeen.pure {α : Type} (value : α) :
    IgnoresSeen (Pure.pure value : StateM Arena α) := fun _ _ => rfl

theorem IgnoresSeen.bind {α β : Type} {first : StateM Arena α} {next : α → StateM Arena β}
    (hfirst : IgnoresSeen first) (hnext : ∀ value, IgnoresSeen (next value)) :
    IgnoresSeen (first >>= next) := by
  intro arena seen
  rw [run_bind, run_bind, hfirst]
  exact hnext _ _ _

theorem ignoresSeen_argumentsOf (type : FieldType) : IgnoresSeen (argumentsOf type) := by
  intro arena seen
  rw [run_argumentsOf, run_argumentsOf]
  split <;> rfl

end Arena

namespace KeptField

open Arena (IgnoresSeen)

theorem ignoresSeen_output (head : FieldHead) (type : FieldType) :
    IgnoresSeen (output head type) :=
  (Arena.ignoresSeen_argumentsOf _).bind fun _ => .pure _

mutual

/-- Building a type neither reads nor changes what is remembered of embedded models. -/
theorem ignoresSeen_buildType (owner path : String) :
    (kept : KeptField) → IgnoresSeen (buildType owner path kept)
  | .value _ type enums => by
    rw [buildType]
    exact IgnoresSeen.bind (fun _ _ => rfl) fun _ => .pure type
  | .reference _ _ _ => by
    rw [buildType]
    exact fun _ _ => rfl
  | .shape head _ _ _ kept => by
    rw [buildType]
    exact (ignoresSeen_buildAll owner (Path.child path head.source) kept ∅).bind fun _ =>
      IgnoresSeen.bind (fun _ _ => rfl) fun _ => .pure _

theorem ignoresSeen_buildAll (owner path : String) : (kept : List KeptField) →
    (done : OrderedMap String OutputField) → IgnoresSeen (buildAll owner path kept done)
  | [], done => by
    rw [buildAll]
    exact .pure done
  | kept :: rest, done => by
    rw [buildAll]
    exact (ignoresSeen_buildType owner path kept).bind fun type =>
      (ignoresSeen_output kept.head type).bind fun output =>
        ignoresSeen_buildAll owner path rest (done.insert output.name output)

end

/-! ### Laying out as keeping and building -/

/-- A computation first chooses by what is remembered of embedded models, and then makes its value
from the choice; it remembers what the choice does. -/
def Splits {α β : Type} (computation : StateM Arena β) (choose : StateM Seen α)
    (make : α → StateM Arena β) : Prop :=
  ∀ arena : Arena, computation.run arena =
    (((make (choose.run arena.seen).1).run arena).1,
      ((make (choose.run arena.seen).1).run arena).2.withSeen (choose.run arena.seen).2)

/-- The type of a field, if the field is kept. -/
def buildType? (owner path : String) : Option KeptField → StateM Arena (Option FieldType)
  | none => pure none
  | some kept => do
    let type ← buildType owner path kept
    pure (some type)

theorem isEmpty_buildAll (owner path : String) (kept : List KeptField)
    (done : OrderedMap String OutputField) (arena : Arena) :
    ((buildAll owner path kept done).run arena).1.isEmpty = (done.isEmpty && kept.isEmpty) := by
  induction kept generalizing done arena with
  | nil => exact (Bool.and_true _).symm
  | cons first rest ih =>
    rw [buildAll, run_bind, run_bind]
    refine (ih _ _).trans ?_
    rw [OrderedMap.isEmpty_insert, Bool.false_and, List.isEmpty_cons, Bool.and_false]

section Split

variable (settings : SynthSettings) (owner typeName path : String) (head : FieldHead)
  (inList : Bool)

theorem splits_scalar (kind : ScalarKind) (values : List String) :
    Splits (do
        let type ← Arena.scalarType typeName head.source kind values
        pure (some (.listIf inList type)))
      (pure (some (ofScalar head inList typeName kind values))) (buildType? owner path) := by
  intro arena
  rw [run_bind, Arena.run_scalarType]
  change _ = (((buildType? owner path (some (ofScalar head inList typeName kind values))).run
    arena).1, _)
  rw [ofScalar]
  split <;> rfl

variable {settings owner typeName path}

theorem splits_nested {name : String} {decls : List FieldDecl}
    (h : Splits (Arena.fields settings owner name (Path.child path head.source) decls ∅)
      (keepAll settings name decls) fun kept =>
        buildAll owner (Path.child path head.source) kept ∅) :
    Splits (do
        let done ← Arena.fields settings owner name (Path.child path head.source) decls ∅
        let type ← Arena.addObject name false done
        pure (type.map (.listIf inList)))
      (do
        let kept ← keepAll settings name decls
        pure (ofNested head inList name kept))
      (buildType? owner path) := by
  intro arena
  rw [run_bind, run_bind, run_bind, h arena, Arena.run_addObject, isEmpty_buildAll]
  cases hkept : (keepAll settings name decls).run arena.seen with
  | mk kept seen =>
    cases kept with
    | nil => rfl
    | cons first rest => rfl

theorem splits_unmet {name : String} {decls : List FieldDecl}
    (h : Splits (Arena.fields settings owner name (Path.child path head.source) decls ∅)
      (keepAll settings name decls) fun kept =>
        buildAll owner (Path.child path head.source) kept ∅) :
    Splits (do
        let done ← Arena.fields settings owner name (Path.child path head.source) decls ∅
        let type ← Arena.addObject name true done
        pure (type.map (.listIf inList)))
      (do
        let kept ← keepAll settings name decls
        ofEmbedded head inList name kept)
      (buildType? owner path) := by
  intro arena
  rw [run_bind, run_bind, run_bind, h arena, Arena.run_addObject, isEmpty_buildAll]
  cases hkept : (keepAll settings name decls).run arena.seen with
  | mk kept seen =>
    cases kept with
    | nil => rfl
    | cons first rest => rfl

theorem ignoresSeen_buildType? (kept : Option KeptField) :
    IgnoresSeen (buildType? owner path kept) := by
  cases kept with
  | none => exact .pure none
  | some kept => exact (ignoresSeen_buildType owner path kept).bind fun _ => .pure _

theorem splits_embedded {model : String} {decls : List FieldDecl}
    (h : Splits (Arena.fields settings owner (Naming.embeddedType model)
        (Path.child path head.source) decls ∅)
      (keepAll settings (Naming.embeddedType model) decls) fun kept =>
        buildAll owner (Path.child path head.source) kept ∅) :
    Splits (do
        match ← Arena.meetEmbedded model with
        | some known => pure (known.map (.listIf inList))
        | none =>
          let done ← Arena.fields settings owner (Naming.embeddedType model)
            (Path.child path head.source) decls ∅
          let type ← Arena.addObject (Naming.embeddedType model) true done
          pure (type.map (.listIf inList)))
      (do
        match ← meet model with
        | some known => pure (known.map fun type => .value head (.listIf inList type) [])
        | none =>
          let kept ← keepAll settings (Naming.embeddedType model) decls
          ofEmbedded head inList (Naming.embeddedType model) kept)
      (buildType? owner path) := by
  intro arena
  have hrun := Arena.run_meetEmbedded model arena
  have hchoose := run_meet model arena.seen
  by_cases hmet : model ∈ arena.embedded
  · rw [if_pos hmet] at hrun
    rw [if_pos (show model ∈ arena.seen.embedded from hmet)] at hchoose
    rw [run_bind, run_bind, hrun, hchoose]
    by_cases hhollow : Naming.embeddedType model ∈ arena.hollow
    · rw [if_pos hhollow, if_pos (show _ ∈ arena.seen.hollow from hhollow)]
      rfl
    · rw [if_neg hhollow, if_neg (show _ ∉ arena.seen.hollow from hhollow)]
      rfl
  · have hunmet := splits_unmet head inList h
      (arena.withSeen { arena.seen with embedded := model :: arena.seen.embedded })
    rw [ignoresSeen_buildType?] at hunmet
    rw [if_neg hmet] at hrun
    rw [if_neg (show model ∉ arena.seen.embedded from hmet)] at hchoose
    rw [run_bind, run_bind, hrun, hchoose]
    exact hunmet

end Split

/-! A kept field has the head of the declared one. -/

theorem head_ofScalar (head : FieldHead) (inList : Bool) (typeName : String) (kind : ScalarKind)
    (values : List String) : (ofScalar head inList typeName kind values).head = head := by
  rw [ofScalar]
  split <;> rfl

theorem head_of_ofNested {head : FieldHead} {inList : Bool} {object : String}
    {fields : List KeptField} {kept : KeptField}
    (h : ofNested head inList object fields = some kept) : kept.head = head := by
  cases fields with
  | nil => cases h
  | cons first rest =>
    cases h
    rfl

theorem head_of_ofEmbedded {head : FieldHead} {inList : Bool} {object : String}
    {fields : List KeptField} {kept : KeptField} {seen : Seen}
    (h : ((ofEmbedded head inList object fields).run seen).1 = some kept) : kept.head = head := by
  cases fields with
  | nil => cases h
  | cons first rest =>
    cases h
    rfl

theorem head_of_known {head : FieldHead} {inList : Bool} {known : Option FieldType}
    {kept : KeptField}
    (h : (known.map fun type => KeptField.value head (.listIf inList type) []) = some kept) :
    kept.head = head := by
  obtain ⟨type, -, rfl⟩ := Option.map_eq_some_iff.1 h
  rfl

section Split

variable (settings : SynthSettings) (owner typeName path : String) (head : FieldHead)

theorem head_of_keepElement (element : ElementShape FieldDecl) (seen : Seen) (kept : KeptField)
    (h : ((keepElement settings typeName head element).run seen).1 = some kept) :
    kept.head = head := by
  cases element with
  | scalar kind values =>
    rw [keepElement] at h
    rw [← Option.some.inj h]
    exact head_ofScalar head true typeName kind values
  | nested decls =>
    rw [keepElement, run_bind] at h
    exact head_of_ofNested h
  | embedded model decls =>
    rw [keepElement, run_bind] at h
    cases hmeet : ((meet model).run seen).1 with
    | some known =>
      rw [hmeet] at h
      exact head_of_known h
    | none =>
      rw [hmeet] at h
      exact head_of_ofEmbedded h

theorem head_of_keepShape (content : FieldShape FieldDecl) (seen : Seen) (kept : KeptField)
    (h : ((keepShape settings typeName head content).run seen).1 = some kept) :
    kept.head = head := by
  cases content with
  | scalar kind values =>
    rw [keepShape] at h
    rw [← Option.some.inj h]
    exact head_ofScalar head false typeName kind values
  | list element =>
    rw [keepShape] at h
    exact head_of_keepElement settings typeName head element seen kept h
  | nested decls =>
    rw [keepShape, run_bind] at h
    exact head_of_ofNested h
  | embedded model decls =>
    rw [keepShape, run_bind] at h
    cases hmeet : ((meet model).run seen).1 with
    | some known =>
      rw [hmeet] at h
      exact head_of_known h
    | none =>
      rw [hmeet] at h
      exact head_of_ofEmbedded h
  | reference target cardinality =>
    rw [keepShape] at h
    cases h
    rfl

/-- The output field of a field, if the field is kept. -/
def build? : Option KeptField → StateM Arena (Option OutputField)
  | none => pure none
  | some kept => do
    let type ← buildType owner path kept
    let output ← output kept.head type
    pure (some output)

mutual

/-- Laying out fields is keeping and building them. -/
theorem splits_fields (typeName path : String) :
    (decls : List FieldDecl) → (done : OrderedMap String OutputField) →
      Splits (Arena.fields settings owner typeName path decls done)
        (keepAll settings typeName decls) fun kept => buildAll owner path kept done
  | [], done => by
    rw [Arena.fields, keepAll]
    intro arena
    rfl
  | decl :: rest, done => by
    intro arena
    rw [Arena.fields, keepAll, run_bind, run_bind, run_bind,
      splits_field typeName path decl arena]
    cases hfirst : (keep settings typeName decl).run arena.seen with
    | mk first seen =>
      have hrest := splits_fields typeName path rest
      cases first with
      | none =>
        have hrest := hrest done (arena.withSeen seen)
        rw [ignoresSeen_buildAll] at hrest
        exact hrest
      | some first =>
        let typed := (buildType owner path first).run arena
        let placed := (output first.head typed.1).run typed.2
        have hrest := hrest (done.insert placed.1.name placed.1) (placed.2.withSeen seen)
        rw [ignoresSeen_buildAll] at hrest
        exact hrest

/-- Laying out a field is keeping and building it. -/
theorem splits_field (typeName path : String) : (decl : FieldDecl) →
    Splits (Arena.field settings owner typeName path decl) (keep settings typeName decl)
      (build? owner path)
  | ⟨source, content, nonNull, isHidden, description, hooks⟩ => by
    intro arena
    have hshape := splits_shapeType typeName path ⟨source, nonNull, description, hooks⟩ content arena
    rw [Arena.field, keep]
    split
    · rfl
    · rw [run_bind, hshape]
      cases hkeep : (keepShape settings typeName ⟨source, nonNull, description, hooks⟩ content).run
        arena.seen with
      | mk kept seen =>
        cases kept with
        | none => rfl
        | some kept =>
          have hhead := head_of_keepShape settings typeName _ content arena.seen kept (by rw [hkeep])
          let typed := (buildType owner path kept).run arena
          have houtput : IgnoresSeen (do
              let output ← output kept.head typed.1
              pure (some output)) :=
            (ignoresSeen_output kept.head typed.1).bind fun _ => .pure _
          have hrun := houtput typed.2 seen
          rw [hhead] at hrun
          refine Eq.trans hrun ?_
          rw [← hhead]
          rfl

theorem splits_shapeType (typeName path : String) (head : FieldHead) :
    (content : FieldShape FieldDecl) →
      Splits (Arena.shapeType settings owner typeName (Path.child path head.source) head.source
        head.nonNull content) (keepShape settings typeName head content) (buildType? owner path)
  | .scalar kind values => by
    rw [Arena.shapeType, keepShape]
    exact splits_scalar owner typeName path head false kind values
  | .list element => by
    rw [Arena.shapeType, keepShape]
    exact splits_elementType typeName path head element
  | .nested decls => by
    have h := splits_nested head false
      (splits_fields (Naming.nestedType typeName head.source) (Path.child path head.source) decls ∅)
    rw [Arena.shapeType, keepShape]
    simpa only [map_listIf_false, bind_pure] using h
  | .embedded model decls => by
    have h := splits_embedded head false
      (splits_fields (Naming.embeddedType model) (Path.child path head.source) decls ∅)
    rw [Arena.shapeType, keepShape]
    intro arena
    refine (congrArg (fun type : StateM Arena _ => type.run arena) ?_).trans (h arena)
    refine bind_congr fun known => ?_
    cases known with
    | some known => exact congrArg Pure.pure (map_listIf_false known).symm
    | none => simp only [map_listIf_false, bind_pure]
  | .reference target cardinality => by
    rw [Arena.shapeType, keepShape]
    intro arena
    rfl

theorem splits_elementType (typeName path : String) (head : FieldHead) :
    (element : ElementShape FieldDecl) →
      Splits (do
          let type ← Arena.elementType settings owner typeName (Path.child path head.source)
            head.source element
          pure (type.map .list))
        (keepElement settings typeName head element) (buildType? owner path)
  | .scalar kind values => by
    rw [Arena.elementType, keepElement]
    exact splits_scalar owner typeName path head true kind values
  | .nested decls => by
    rw [Arena.elementType, keepElement]
    exact splits_nested head true
      (splits_fields (Naming.nestedType typeName head.source) (Path.child path head.source) decls ∅)
  | .embedded model decls => by
    have h := splits_embedded head true
      (splits_fields (Naming.embeddedType model) (Path.child path head.source) decls ∅)
    rw [Arena.elementType, keepElement, bind_assoc]
    intro arena
    refine (congrArg (fun type : StateM Arena _ => type.run arena) ?_).trans (h arena)
    refine bind_congr fun known => ?_
    cases known with
    | some known => rfl
    | none => rfl

end

end Split

end KeptField

end ModelGraph
