import ModelGraph.Graph.Synthesis
import ModelGraph.Proofs.OrderedMap

/-!
# Laying out fields step by step

Laying out fields is a sequence of elementary steps: an enum, an object or a slot is added, the
arguments of a type are derived, an embedded model is announced. A property of computations that
every elementary step has, and that sequences inherit, is one of laying out any fields.

## Main definitions

- `Arena.Inherited` — a property of the elementary steps that sequences inherit
- `Arena.withRoots` — an arena with the roots and connections of another

## Main statements

- `Arena.Inherited.fields` — laying out fields has every inherited property
- `Arena.fields_withRoots` — laying out fields neither reads nor changes roots and connections
-/

namespace ModelGraph

/-- A sequence runs its second part from where the first one ends. -/
theorem run_bind {σ α β : Type} (first : StateM σ α) (next : α → StateM σ β) (state : σ) :
    (first >>= next).run state = (next (first.run state).1).run (first.run state).2 := rfl

namespace Arena

/-! ### What the elementary steps do -/

theorem run_scalarType (parent field : String) (kind : ScalarKind) (values : List String)
    (arena : Arena) :
    (scalarType parent field kind values).run arena =
      if values.isEmpty || kind != .string then (.scalar (.ofKind kind), arena)
      else
        (.enum (Naming.enumType parent field),
          { arena with
            enums := arena.enums.insert (Naming.enumType parent field)
              ⟨Naming.enumType parent field,
                values.map fun value => ⟨Naming.sanitize value, value⟩⟩ }) := by
  rw [scalarType]
  split <;> rfl

theorem run_addObject (name : String) (embedded : Bool) (fields : OrderedMap String OutputField)
    (arena : Arena) :
    (addObject name embedded fields).run arena =
      if fields.isEmpty then
        (none, if embedded then { arena with hollow := name :: arena.hollow } else arena)
      else
        (some (.object name),
          { arena with objects := arena.objects.insert name { name, fields, embedded } }) := by
  rw [addObject]
  split
  · cases embedded <;> rfl
  · rfl

theorem run_addSlot (slot : ReferenceSlot) (arena : Arena) :
    (addSlot slot).run arena =
      (.unresolved slot, { arena with pending := arena.pending ++ [slot] }) := rfl

theorem run_argumentsOf (type : FieldType) (arena : Arena) :
    (argumentsOf type).run arena =
      if type.isUnresolved then ([], arena)
      else
        (((Arguments.derive arena.objects type).run arena.inputs).1,
          { arena with inputs := ((Arguments.derive arena.objects type).run arena.inputs).2 }) := by
  rw [argumentsOf]
  split <;> rfl

theorem run_meetEmbedded (model : String) (arena : Arena) :
    (meetEmbedded model).run arena =
      if model ∈ arena.embedded then
        (some (if Naming.embeddedType model ∈ arena.hollow then none
          else some (.object (Naming.embeddedType model))), arena)
      else (none, { arena with embedded := model :: arena.embedded }) := by
  simp only [meetEmbedded, List.contains_iff_mem]
  change (if model ∈ arena.embedded then _ else _ : StateM Arena _).run arena = _
  split <;> rfl

/-! ### Properties that sequences inherit -/

/-- A property of computations on arenas that every elementary step of laying out fields has, and
that a sequence has when its parts do. -/
structure Inherited (P : {α : Type} → StateM Arena α → Prop) : Prop where
  pure : ∀ {α : Type} (value : α), P (Pure.pure value : StateM Arena α)
  bind : ∀ {α β : Type} {first : StateM Arena α} {next : α → StateM Arena β},
    P first → (∀ value, P (next value)) → P (first >>= next)
  scalarType : ∀ parent field kind values, P (Arena.scalarType parent field kind values)
  addObject : ∀ name embedded fields, P (Arena.addObject name embedded fields)
  addSlot : ∀ slot, P (Arena.addSlot slot)
  argumentsOf : ∀ type, P (Arena.argumentsOf type)
  meetEmbedded : ∀ model, P (Arena.meetEmbedded model)

namespace Inherited

variable {P : {α : Type} → StateM Arena α → Prop} (h : Inherited P)
variable (settings : SynthSettings) (owner : String)

include h

mutual

/-- Laying out fields has every inherited property. -/
theorem fields (typeName path : String) :
    (decls : List FieldDecl) → (done : OrderedMap String OutputField) →
      P (Arena.fields settings owner typeName path decls done)
  | [], done => by
    rw [Arena.fields]
    exact h.pure done
  | decl :: rest, done => by
    rw [Arena.fields]
    refine h.bind (field typeName path decl) fun output => ?_
    cases output with
    | none => exact fields typeName path rest done
    | some output => exact fields typeName path rest (done.insert output.name output)

theorem field (typeName path : String) : (decl : FieldDecl) →
    P (Arena.field settings owner typeName path decl)
  | ⟨name, shape, nonNull, hidden, description, hooks⟩ => by
    rw [Arena.field]
    split
    · exact h.pure none
    · refine h.bind (shapeType typeName (Path.child path name) name nonNull shape) fun type => ?_
      cases type with
      | none => exact h.pure none
      | some type => exact h.bind (h.argumentsOf _) fun args => h.pure _

theorem shapeType (typeName path source : String) (nonNull : Bool) :
    (shape : FieldShape FieldDecl) →
      P (Arena.shapeType settings owner typeName path source nonNull shape)
  | .scalar kind values => by
    rw [Arena.shapeType]
    exact h.bind (h.scalarType _ _ _ _) fun type => h.pure _
  | .list element => by
    rw [Arena.shapeType]
    exact h.bind (elementType typeName path source element) fun type => h.pure _
  | .nested decls => by
    rw [Arena.shapeType]
    exact h.bind (fields (Naming.nestedType typeName source) path decls ∅)
      fun done => h.addObject _ _ _
  | .embedded model decls => by
    rw [Arena.shapeType]
    refine h.bind (h.meetEmbedded model) fun known => ?_
    cases known with
    | some known => exact h.pure known
    | none =>
      exact h.bind (fields (Naming.embeddedType model) path decls ∅) fun done => h.addObject _ _ _
  | .reference target cardinality => by
    rw [Arena.shapeType]
    exact h.bind (h.addSlot _) fun type => h.pure _

theorem elementType (typeName path source : String) : (element : ElementShape FieldDecl) →
    P (Arena.elementType settings owner typeName path source element)
  | .scalar kind values => by
    rw [Arena.elementType]
    exact h.bind (h.scalarType _ _ _ _) fun type => h.pure _
  | .nested decls => by
    rw [Arena.elementType]
    exact h.bind (fields (Naming.nestedType typeName source) path decls ∅)
      fun done => h.addObject _ _ _
  | .embedded model decls => by
    rw [Arena.elementType]
    refine h.bind (h.meetEmbedded model) fun known => ?_
    cases known with
    | some known => exact h.pure known
    | none =>
      exact h.bind (fields (Naming.embeddedType model) path decls ∅) fun done => h.addObject _ _ _

end

end Inherited

/-! ### Roots and connections -/

/-- An arena with the roots and connections of another one. -/
def withRoots (arena base : Arena) : Arena :=
  { arena with
    roots := base.roots, rootModels := base.rootModels, connections := base.connections }

/-- A computation that neither reads nor changes roots and connections. -/
def IgnoresRoots {α : Type} (computation : StateM Arena α) : Prop :=
  ∀ arena base : Arena, computation.run (arena.withRoots base) =
    ((computation.run arena).1, (computation.run arena).2.withRoots base)

theorem inherited_ignoresRoots : Inherited IgnoresRoots where
  pure _ _ _ := rfl
  bind := by
    intro α β first next hfirst hnext arena base
    rw [run_bind, run_bind, hfirst]
    exact hnext _ _ _
  scalarType parent field kind values arena base := by
    rw [run_scalarType, run_scalarType]
    split <;> rfl
  addObject name embedded fields arena base := by
    rw [run_addObject, run_addObject]
    split
    · cases embedded <;> rfl
    · rfl
  addSlot _ _ _ := rfl
  argumentsOf type arena base := by
    rw [run_argumentsOf, run_argumentsOf]
    split <;> rfl
  meetEmbedded model arena base := by
    rw [run_meetEmbedded, run_meetEmbedded]
    change (if model ∈ arena.embedded then _ else _) = _
    split <;> rfl

section Fields

variable (settings : SynthSettings) (owner typeName path : String) (decls : List FieldDecl)
  (done : OrderedMap String OutputField) (arena base : Arena)

/-- Laying out fields neither reads nor changes roots and connections. -/
theorem fields_withRoots :
    (fields settings owner typeName path decls done).run (arena.withRoots base) =
      (((fields settings owner typeName path decls done).run arena).1,
        ((fields settings owner typeName path decls done).run arena).2.withRoots base) :=
  inherited_ignoresRoots.fields settings owner typeName path decls done arena base

theorem fields_withRoots_self :
    ((fields settings owner typeName path decls done).run arena).2.withRoots arena =
      ((fields settings owner typeName path decls done).run arena).2 :=
  (congrArg Prod.snd (fields_withRoots settings owner typeName path decls done arena arena)).symm

end Fields

/-! ### Models -/

/-- The root type of a model whose declared fields are laid out. -/
def rootOf (settings : SynthSettings) (identity : Identity) (model : ModelDecl)
    (declared : OrderedMap String OutputField) : ObjectType where
  name := Naming.sanitize model.name
  description := model.description
  fields := (OrderedMap.insert ∅ Identity.field
    (.ofIdentity (identitySource settings model))).insertMany declared.toList
  identity := some identity
  hooks := model.hooks

/-- A root has the fields that are declared, and the identity field unless one of them takes its
name. -/
theorem get?_rootOf {settings : SynthSettings} {identity : Identity} {model : ModelDecl}
    {declared : OrderedMap String OutputField} {name : String} {field : OutputField} :
    (rootOf settings identity model declared).fields.get? name = some field ↔
      declared.get? name = some field ∨ declared.get? name = none ∧
        name = Identity.field ∧ field = .ofIdentity (identitySource settings model) := by
  have hidentity : (OrderedMap.insert (∅ : OrderedMap String OutputField) Identity.field
      (.ofIdentity (identitySource settings model))).get? name = some field ↔
        name = Identity.field ∧ field = .ofIdentity (identitySource settings model) := by
    rw [OrderedMap.get?_insert, OrderedMap.get?_empty]
    split
    · next heq => exact ⟨fun h => ⟨heq.symm, (Option.some.inj h).symm⟩, fun h => h.2 ▸ rfl⟩
    · next hne => exact ⟨fun h => (by cases h), fun h => absurd h.1.symm hne⟩
  rw [rootOf, OrderedMap.get?_insertMany_toList, Option.or_eq_some_iff, hidentity]

theorem mem_values_rootOf {settings : SynthSettings} {identity : Identity} {model : ModelDecl}
    {declared : OrderedMap String OutputField} {field : OutputField}
    (h : field ∈ (rootOf settings identity model declared).fields.values) :
    field ∈ declared.values ∨ field = .ofIdentity (identitySource settings model) := by
  obtain ⟨name, hget⟩ := OrderedMap.mem_values_iff.1 h
  rcases get?_rootOf.1 hget with hdeclared | ⟨-, -, heq⟩
  · exact .inl (OrderedMap.mem_values_iff.2 ⟨name, hdeclared⟩)
  · exact .inr heq

/-- Laying out the declared fields of a model. -/
def declared (settings : SynthSettings) (model : ModelDecl) :
    StateM Arena (OrderedMap String OutputField) :=
  fields settings (Naming.sanitize model.name) (Naming.sanitize model.name) ""
    (model.fields.filter fun decl => !isIdentityDecl decl) ∅

/-- Laying out a model leaves its fields' types and its root. -/
theorem run_addModel (settings : SynthSettings) (identity : Identity) (model : ModelDecl)
    (arena : Arena) :
    (addModel settings identity model).run arena =
      ((), { ((declared settings model).run arena).2 with
        roots := arena.roots.insert (Naming.sanitize model.name)
          (rootOf settings identity model ((declared settings model).run arena).1)
        rootModels := arena.rootModels.insert (Naming.sanitize model.name) model.name
        connections := arena.connections }) := by
  have hframe := fields_withRoots_self settings (Naming.sanitize model.name)
    (Naming.sanitize model.name) "" (model.fields.filter fun decl => !isIdentityDecl decl) ∅ arena
  have hroots := congrArg Arena.roots hframe
  have hmodels := congrArg Arena.rootModels hframe
  have hconnections := congrArg Arena.connections hframe
  change arena.roots = _ at hroots
  change arena.rootModels = _ at hmodels
  change arena.connections = _ at hconnections
  rw [declared, hroots, hmodels, hconnections]
  rfl

end Arena

end ModelGraph
