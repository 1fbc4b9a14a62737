import ModelGraph.Proofs.Graph.Kept
import ModelGraph.Proofs.Graph.Places

/-!
# What building leaves behind

Building kept fields adds the object types and the enums that they name, and a slot for every
reference. When no name is used twice, every slot is found again: the names on the way to a
reference, rewritten, lead through the object types to a field that still has this slot for its
type.

## Main definitions

- `Reference` — a reference below a type, with the names on the way
- `KeptField.references`, `KeptField.objectNames`, `KeptField.enumNames` — what a kept field needs
- `KeptField.Distinct` — siblings have different output names
- `KeptField.StandsAll` — kept fields among output fields, with the types of their shapes
- `typeAlong` — the type at the end of a path through object types

## Main statements

- `KeptField.builds_all` — what building kept fields leaves behind
- `KeptField.StandsAll.found` — every slot is found again
-/

namespace ModelGraph

/-- A reference below a type. -/
structure Reference where
  /-- The declared names on the way to it, its own one last. -/
  trail : List String
  /-- The model name it aims at. -/
  target : String
  cardinality : Cardinality
  nonNull : Bool
deriving DecidableEq, Repr

namespace Reference

/-- The reference as it is seen from the type of a field that it lies below. -/
def below (source : String) (reference : Reference) : Reference :=
  { reference with trail := source :: reference.trail }

/-- The slot that a reference leaves behind below the type at a path. -/
def slot (owner path : String) (reference : Reference) : ReferenceSlot where
  owner := owner
  path := reference.trail.foldl Path.child path
  target := reference.target
  cardinality := reference.cardinality
  nonNull := reference.nonNull

/-- The output names on the way to a reference. -/
def names (reference : Reference) : List String := reference.trail.map Naming.sanitize

end Reference

namespace KeptField

/-- The name of the output field. -/
def name (kept : KeptField) : String := Naming.sanitize kept.head.source

mutual

/-- The references of a field and below it, in order. -/
def references : KeptField → List Reference
  | .value _ _ _ => []
  | .reference head target cardinality => [⟨[head.source], target, cardinality, head.nonNull⟩]
  | .shape head _ _ _ fields => (referencesAll fields).map (Reference.below head.source)

/-- The references of fields and below them, in order. -/
def referencesAll : List KeptField → List Reference
  | [] => []
  | kept :: rest => references kept ++ referencesAll rest

end

mutual

/-- The object types that a field adds, in the order in which they are finished. -/
def objectNames : KeptField → List String
  | .value _ _ _ | .reference _ _ _ => []
  | .shape _ _ object _ fields => objectNamesAll fields ++ [object]

/-- The object types that fields add, in the order in which they are finished. -/
def objectNamesAll : List KeptField → List String
  | [] => []
  | kept :: rest => objectNames kept ++ objectNamesAll rest

end

mutual

/-- The enums that a field adds, in order. -/
def enumNames : KeptField → List String
  | .value _ _ enums => enums.map EnumType.name
  | .reference _ _ _ => []
  | .shape _ _ _ _ fields => enumNamesAll fields

/-- The enums that fields add, in order. -/
def enumNamesAll : List KeptField → List String
  | [] => []
  | kept :: rest => enumNames kept ++ enumNamesAll rest

end

mutual

/-- Below a field, siblings have different output names. -/
def Distinct : KeptField → Prop
  | .value _ _ _ | .reference _ _ _ => True
  | .shape _ _ _ _ fields => (fields.map name).Nodup ∧ DistinctAll fields

/-- Below fields, siblings have different output names. -/
def DistinctAll : List KeptField → Prop
  | [] => True
  | kept :: rest => Distinct kept ∧ DistinctAll rest

end

/-- The type of a kept field as it is laid out, before it is made non-null. -/
def bareType (owner path : String) : KeptField → FieldType
  | .value _ type _ => type
  | .reference head target cardinality =>
    .unresolved ⟨owner, Path.child path head.source, target, cardinality, head.nonNull⟩
  | .shape _ inList object _ _ => .listIf inList (.object object)

/-- The type of a kept field's output field as it is laid out. -/
def outputType (owner path : String) (kept : KeptField) : FieldType :=
  let type := bareType owner path kept
  if kept.head.nonNull && !type.isUnresolved then type.asNonNull else type

mutual

/-- Whether the types of a field's shape and below it are among the finished ones. -/
def Stands (owner path : String) (objects : OrderedMap String ObjectType) : KeptField → Prop
  | .value _ _ _ | .reference _ _ _ => True
  | .shape head _ object _ fields => ∃ type, objects.get? object = some type ∧
      StandsAll owner (Path.child path head.source) objects fields type.fields

/-- Whether kept fields are among output fields, with the types of their shapes and below them among
the finished ones. -/
def StandsAll (owner path : String) (objects : OrderedMap String ObjectType) :
    List KeptField → OrderedMap String OutputField → Prop
  | [], _ => True
  | kept :: rest, done =>
    (∃ field, done.get? (name kept) = some field ∧ field.type = outputType owner path kept) ∧
      Stands owner path objects kept ∧ StandsAll owner path objects rest done

end

end KeptField

/-! ### Paths through object types -/

/-- The type at the end of a list of field names that starts from a field type. Every type on the
way has to be a finished object type. -/
def typeAlong (objects : OrderedMap String ObjectType) (type : FieldType) :
    List String → Option FieldType
  | [] => some type
  | name :: rest =>
    type.objectName?.bind fun object =>
      (objects.get? object).bind fun holder =>
        (holder.fields.get? name).bind fun field => typeAlong objects field.type rest

/-- Finished types stay what they are. -/
def Grows (objects larger : OrderedMap String ObjectType) : Prop :=
  ∀ name type, objects.get? name = some type → larger.get? name = some type

theorem Grows.refl (objects : OrderedMap String ObjectType) : Grows objects objects :=
  fun _ _ h => h

theorem Grows.trans {objects larger largest : OrderedMap String ObjectType}
    (h : Grows objects larger) (h' : Grows larger largest) : Grows objects largest :=
  fun name type hget => h' name type (h name type hget)

theorem Grows.insert {objects : OrderedMap String ObjectType} {name : String} {type : ObjectType}
    (h : name ∉ objects.keys) : Grows objects (objects.insert name type) := by
  intro other otherType hget
  rw [OrderedMap.get?_insert_of_ne]
  · exact hget
  · rintro rfl
    exact h (OrderedMap.mem_keys_of_get? hget)

@[simp] theorem FieldType.objectName?_asNonNull (type : FieldType) :
    type.asNonNull.objectName? = type.objectName? := by
  cases type <;> rfl

@[simp] theorem FieldType.objectName?_listIf (inList : Bool) (type : FieldType) :
    (FieldType.listIf inList type).objectName? = type.objectName? := by
  cases inList <;> rfl

/-- Where a path leads to a slot, it does so from the type made non-null as well. -/
theorem typeAlong_wrapped {objects : OrderedMap String ObjectType} {type : FieldType}
    {names : List String} {slot : ReferenceSlot} (nonNull : Bool)
    (h : typeAlong objects type names = some (.unresolved slot)) :
    typeAlong objects (if nonNull && !type.isUnresolved then type.asNonNull else type) names =
      some (.unresolved slot) := by
  cases names with
  | nil =>
    rw [typeAlong, Option.some.injEq] at h
    subst h
    cases nonNull <;> rfl
  | cons name rest =>
    split
    · rwa [typeAlong, FieldType.objectName?_asNonNull]
    · exact h

namespace KeptField

/-! ### One step -/

/-- Deriving the arguments of a field only adds input types. -/
theorem run_output_eq (head : FieldHead) (type : FieldType) (arena : Arena) :
    ∃ args inputs, (output head type).run arena =
      ({ name := Naming.sanitize head.source, source := head.source,
         type := if head.nonNull && !type.isUnresolved then type.asNonNull else type,
         description := head.description, args, hooks := head.hooks, identity := false },
       { arena with inputs }) := by
  have hargs : ∀ type : FieldType, ∃ args inputs,
      (Arena.argumentsOf type).run arena = (args, { arena with inputs }) := by
    intro type
    rw [Arena.run_argumentsOf]
    split
    · exact ⟨[], arena.inputs, rfl⟩
    · exact ⟨_, _, rfl⟩
  obtain ⟨args, inputs, hrun⟩ :=
    hargs (if head.nonNull && !type.isUnresolved then type.asNonNull else type)
  refine ⟨args, inputs, ?_⟩
  rw [run_output]
  dsimp only
  rw [hrun]

/-- What building kept fields below the type at a path leaves behind. -/
structure Builds (owner path : String) (kept : List KeptField) (arena built : Arena) : Prop where
  pending : built.pending =
    arena.pending ++ (referencesAll kept).map (Reference.slot owner path)
  objects : built.objects.keys = arena.objects.keys ++ objectNamesAll kept
  grows : Grows arena.objects built.objects
  enums : ∀ name, name ∈ built.enums.keys ↔ name ∈ arena.enums.keys ∨ name ∈ enumNamesAll kept

section Builds

variable {owner path : String}

theorem Builds.nil (arena : Arena) : Builds owner path [] arena arena where
  pending := (List.append_nil _).symm
  objects := (List.append_nil _).symm
  grows := .refl _
  enums name := by
    rw [enumNamesAll]
    exact (or_iff_left List.not_mem_nil).symm

theorem Builds.cons {first : KeptField} {rest : List KeptField} {arena built last : Arena}
    (hfirst : Builds owner path [first] arena built) (hrest : Builds owner path rest built last) :
    Builds owner path (first :: rest) arena last where
  pending := by
    rw [hrest.pending, hfirst.pending, referencesAll, referencesAll, referencesAll, List.append_nil,
      List.map_append, List.append_assoc]
  objects := by
    rw [hrest.objects, hfirst.objects, objectNamesAll, objectNamesAll, objectNamesAll,
      List.append_nil, List.append_assoc]
  grows := hfirst.grows.trans hrest.grows
  enums name := by
    rw [hrest.enums, hfirst.enums, enumNamesAll, enumNamesAll, enumNamesAll, List.append_nil,
      List.mem_append, or_assoc]

theorem Builds.withInputs {kept : List KeptField} {arena built : Arena}
    (h : Builds owner path kept arena built) (inputs : Mirrors) :
    Builds owner path kept arena { built with inputs } :=
  ⟨h.pending, h.objects, h.grows, h.enums⟩

end Builds

/-! ### All of them -/

mutual

theorem Stands.grow {objects larger : OrderedMap String ObjectType} (hgrows : Grows objects larger)
    (owner path : String) : (kept : KeptField) → Stands owner path objects kept →
      Stands owner path larger kept
  | .value _ _ _, _ | .reference _ _ _, _ => by
    rw [Stands]
    trivial
  | .shape head _ object _ fields, h => by
    rw [Stands] at h ⊢
    obtain ⟨type, hget, hfields⟩ := h
    exact ⟨type, hgrows object type hget,
      StandsAll.grow hgrows owner (Path.child path head.source) fields type.fields hfields⟩

/-- Kept fields still stand when more types are finished. -/
theorem StandsAll.grow {objects larger : OrderedMap String ObjectType}
    (hgrows : Grows objects larger) (owner path : String) : (kept : List KeptField) →
    (done : OrderedMap String OutputField) → StandsAll owner path objects kept done →
      StandsAll owner path larger kept done
  | [], _, _ => by
    rw [StandsAll]
    trivial
  | kept :: rest, done, h => by
    rw [StandsAll] at h ⊢
    exact ⟨h.1, Stands.grow hgrows owner path kept h.2.1,
      StandsAll.grow hgrows owner path rest done h.2.2⟩

end

/-- Kept fields still stand among more output fields. -/
theorem StandsAll.more {objects : OrderedMap String ObjectType} {owner path : String}
    {kept : List KeptField} {done more : OrderedMap String OutputField}
    (h : StandsAll owner path objects kept done)
    (hmore : ∀ name field, done.get? name = some field → more.get? name = some field) :
    StandsAll owner path objects kept more := by
  induction kept with
  | nil =>
    rw [StandsAll]
    trivial
  | cons first rest ih =>
    rw [StandsAll] at h ⊢
    obtain ⟨⟨field, hfield, htype⟩, hfirst, hrest⟩ := h
    exact ⟨⟨field, hmore _ _ hfield, htype⟩, hfirst, ih hrest⟩

mutual

theorem builds_type (owner path : String) : (kept : KeptField) → (arena : Arena) →
    (arena.objects.keys ++ objectNames kept).Nodup → Distinct kept →
      let built := (buildType owner path kept).run arena
      Builds owner path [kept] arena built.2 ∧ built.1 = bareType owner path kept ∧
        Stands owner path built.2.objects kept
  | .value head type enums, arena, _, _ => by
    rw [buildType]
    refine ⟨⟨(List.append_nil _).symm, (List.append_nil _).symm, .refl _, fun name => ?_⟩, rfl,
      trivial⟩
    change name ∈ (arena.enums.insertMany (enums.map fun type => (type.name, type))).keys ↔ _
    rw [OrderedMap.mem_keys_insertMany, List.map_map, enumNamesAll, enumNames, enumNamesAll,
      List.append_nil]
    rfl
  | .reference head target cardinality, arena, _, _ => by
    rw [buildType]
    refine ⟨⟨?_, (List.append_nil _).symm, .refl _, fun name => ?_⟩, rfl, trivial⟩
    · rw [referencesAll, references, referencesAll]
      rfl
    · rw [enumNamesAll, enumNames, enumNamesAll]
      exact (or_iff_left List.not_mem_nil).symm
  | .shape head inList object embedded fields, arena, hnodup, hdistinct => by
    rw [objectNames, ← List.append_assoc] at hnodup
    obtain ⟨hinner, -, hdisjoint⟩ := List.nodup_append.1 hnodup
    rw [Distinct] at hdistinct
    obtain ⟨hbuilds, -, -, hstands⟩ := builds_all owner (Path.child path head.source) fields ∅
      arena hinner hdistinct.2 hdistinct.1
    let built := (buildAll owner (Path.child path head.source) fields ∅).run arena
    have hnew : object ∉ built.2.objects.keys := by
      rw [hbuilds.objects]
      exact fun h => hdisjoint object h object (List.mem_singleton_self _) rfl
    have hrun : (buildType owner path (.shape head inList object embedded fields)).run arena =
        (.listIf inList (.object object),
          { built.2 with
            objects := built.2.objects.insert object
              { name := object, fields := built.1, embedded } }) := by
      rw [buildType]
      rfl
    rw [hrun]
    refine ⟨⟨?_, ?_, hbuilds.grows.trans (.insert hnew), ?_⟩, rfl, ?_⟩
    · rw [hbuilds.pending, referencesAll, references, referencesAll, List.append_nil, List.map_map]
      rfl
    · rw [OrderedMap.keys_insert_of_notMem hnew, hbuilds.objects, objectNamesAll, objectNames,
        objectNamesAll, List.append_nil, List.append_assoc]
    · intro name
      rw [enumNamesAll, enumNames, enumNamesAll, List.append_nil]
      exact hbuilds.enums name
    · rw [Stands]
      exact ⟨_, OrderedMap.get?_insert_self, hstands.grow (.insert hnew) ..⟩

/-- Building kept fields adds the types and enums that they name, and a slot for every reference.
All output names stay different, and all fields stand with the types of their shapes. -/
theorem builds_all (owner path : String) : (kept : List KeptField) →
    (done : OrderedMap String OutputField) → (arena : Arena) →
    (arena.objects.keys ++ objectNamesAll kept).Nodup → DistinctAll kept →
      (done.keys ++ kept.map name).Nodup →
      let built := (buildAll owner path kept done).run arena
      Builds owner path kept arena built.2 ∧ built.1.keys = done.keys ++ kept.map name ∧
        (∀ name field, done.get? name = some field → built.1.get? name = some field) ∧
        StandsAll owner path built.2.objects kept built.1
  | [], done, arena, _, _, _ =>
    ⟨.nil arena, (List.append_nil _).symm, fun _ _ h => h, trivial⟩
  | first :: rest, done, arena, hnodup, hdistinct, hnames => by
    rw [objectNamesAll, ← List.append_assoc] at hnodup
    rw [DistinctAll] at hdistinct
    -- The field itself is new, and so are the objects below it: nothing done before is touched.
    have hname : name first ∉ done.keys := by
      intro h
      exact (List.nodup_append.1 hnames).2.2 _ h _ (by simp) rfl
    let typed := (buildType owner path first).run arena
    obtain ⟨hbuilds, htyped, hstands⟩ :=
      builds_type owner path first arena (List.nodup_append.1 hnodup).1 hdistinct.1
    obtain ⟨args, inputs, houtput⟩ := run_output_eq first.head typed.1 typed.2
    let field := ((output first.head typed.1).run typed.2).1
    have hfieldName : field.name = name first := congrArg (fun result => result.1.name) houtput
    have hfieldType : field.type = outputType owner path first := by
      refine (congrArg (fun result => result.1.type) houtput).trans ?_
      rw [outputType, ← htyped]
    have hobjects : ((output first.head typed.1).run typed.2).2.objects = typed.2.objects :=
      congrArg (fun result => result.2.objects) houtput
    have hfirst : Builds owner path [first] arena ((output first.head typed.1).run typed.2).2 := by
      rw [houtput]
      exact hbuilds.withInputs inputs
    have hkeys : (done.insert field.name field).keys = done.keys ++ [name first] := by
      rw [hfieldName, OrderedMap.keys_insert_of_notMem hname]
    -- The others are built after it, in an arena that has its objects already.
    obtain ⟨hrest, hrestKeys, hkept, hstandsRest⟩ := builds_all owner path rest
      (done.insert field.name field) ((output first.head typed.1).run typed.2).2
      (by rw [hfirst.objects, objectNamesAll, objectNamesAll, List.append_nil]; exact hnodup)
      hdistinct.2 (by rw [hkeys, List.append_assoc]; exact hnames)
    rw [buildAll]
    refine ⟨hfirst.cons hrest, ?_, fun other otherField h => hkept other otherField ?_, ?_⟩
    · refine hrestKeys.trans ?_
      rw [hkeys, List.append_assoc]
      rfl
    · rw [hfieldName, OrderedMap.get?_insert_of_ne]
      · exact h
      · rintro rfl
        exact hname (OrderedMap.mem_keys_of_get? h)
    · rw [StandsAll]
      refine ⟨⟨field, hkept _ _ ?_, hfieldType⟩, ?_, hstandsRest⟩
      · rw [hfieldName, OrderedMap.get?_insert_self]
      · rw [← hobjects] at hstands
        exact hstands.grow hrest.grows ..

end

/-! ### Finding slots -/

/-- A slot for a reference is found from a field of the given ones. -/
def FoundAmong (owner path : String) (objects : OrderedMap String ObjectType)
    (done : OrderedMap String OutputField) (reference : Reference) : Prop :=
  ∃ source rest field, reference.trail = source :: rest ∧
    done.get? (Naming.sanitize source) = some field ∧
    typeAlong objects field.type (rest.map Naming.sanitize) =
      some (.unresolved (reference.slot owner path))

mutual

/-- A slot stands at the end of the output names on the way to its reference. -/
theorem Stands.found {objects : OrderedMap String ObjectType} (owner path : String) :
    (kept : KeptField) → Stands owner path objects kept →
      ∀ reference ∈ references kept, ∃ rest, reference.trail = kept.head.source :: rest ∧
        typeAlong objects (bareType owner path kept) (rest.map Naming.sanitize) =
          some (.unresolved (reference.slot owner path))
  | .value _ _ _, _ => by
    intro reference h
    rw [references] at h
    cases h
  | .reference head target cardinality, _ => by
    intro reference h
    rw [references, List.mem_singleton] at h
    subst h
    exact ⟨[], rfl, rfl⟩
  | .shape head inList object embedded fields, hstands => by
    intro reference h
    rw [Stands] at hstands
    obtain ⟨type, hget, hfields⟩ := hstands
    rw [references] at h
    obtain ⟨inner, hinner, rfl⟩ := List.mem_map.1 h
    obtain ⟨source, rest, field, htrail, hfield, hpath⟩ :=
      StandsAll.found owner (Path.child path head.source) fields type.fields hfields inner hinner
    refine ⟨inner.trail, rfl, ?_⟩
    rw [htrail, List.map_cons, typeAlong, bareType, FieldType.objectName?_listIf]
    change (objects.get? object).bind _ = _
    rw [hget, Option.bind_some, hfield, Option.bind_some]
    exact hpath

/-- Every slot of fields that stand is found again. -/
theorem StandsAll.found {objects : OrderedMap String ObjectType} (owner path : String) :
    (kept : List KeptField) → (done : OrderedMap String OutputField) →
    StandsAll owner path objects kept done →
      ∀ reference ∈ referencesAll kept, FoundAmong owner path objects done reference
  | [], _, _ => by
    intro reference h
    rw [referencesAll] at h
    cases h
  | kept :: rest, done, hstands => by
    intro reference h
    rw [StandsAll] at hstands
    obtain ⟨⟨field, hfield, htype⟩, hkept, hrest⟩ := hstands
    rw [referencesAll] at h
    rcases List.mem_append.1 h with h | h
    · obtain ⟨names, htrail, hpath⟩ := Stands.found owner path kept hkept reference h
      refine ⟨kept.head.source, names, field, htrail, hfield, ?_⟩
      rw [htype]
      exact typeAlong_wrapped _ hpath
    · exact StandsAll.found owner path rest done hrest reference h

end

end KeptField

end ModelGraph
