import ModelGraph.Proofs.Graph.LaidOut

/-!
# What the tables of an arena hold

Whatever names are declared, laying out models writes the enum and the object type of every kept
declaration under its name, one after another. Of two declarations with one name the last one stays.
Every kept reference leaves a slot behind.

## Main definitions

- `FieldOutline`, `ObjectOutline` — fields and object types without the types of fields
- `KeptField.enumsAll`, `KeptField.shapesAll` — the enums and object types of kept fields, in order
- `Arena.Holds` — an arena with the types and slots of kept models

## Main statements

- `KeptField.writes_all` — what building kept fields writes
- `Run.holds` — the first phase writes the types and slots of its kept models
-/

namespace ModelGraph

/-! ### Outlines -/

/-- What an output field takes over from the declared one, under its output name. -/
structure FieldOutline where
  name : String
  source : String
  description : Option String
  hooks : HookNames
deriving DecidableEq

/-- An object type without the types of its fields. -/
structure ObjectOutline where
  embedded : Bool
  fields : OrderedMap String FieldOutline
deriving DecidableEq

def OutputField.outline (field : OutputField) : FieldOutline :=
  ⟨field.name, field.source, field.description, field.hooks⟩

def ObjectType.outline (type : ObjectType) : ObjectOutline :=
  ⟨type.embedded, type.fields.map OutputField.outline⟩

namespace KeptField

def outline (kept : KeptField) : FieldOutline :=
  ⟨kept.name, kept.head.source, kept.head.description, kept.head.hooks⟩

/-- The outlines of fields under their output names. -/
def outlines (kept : List KeptField) : List (String × FieldOutline) :=
  kept.map fun field => (field.name, field.outline)

end KeptField

/-- An object type that a kept field adds. -/
structure KeptShape where
  object : String
  embedded : Bool
  fields : List KeptField

def KeptShape.outline (shape : KeptShape) : ObjectOutline :=
  ⟨shape.embedded, .ofList (KeptField.outlines shape.fields)⟩

namespace KeptField

mutual

/-- The object types that a field adds, in the order in which they are finished. -/
def shapes : KeptField → List KeptShape
  | .value _ _ _ | .reference _ _ _ => []
  | .shape _ _ object embedded fields => shapesAll fields ++ [⟨object, embedded, fields⟩]

/-- The object types that fields add, in the order in which they are finished. -/
def shapesAll : List KeptField → List KeptShape
  | [] => []
  | kept :: rest => shapes kept ++ shapesAll rest

end

mutual

/-- The enums that a field adds, in order. -/
def enums : KeptField → List EnumType
  | .value _ _ enums => enums
  | .reference _ _ _ => []
  | .shape _ _ _ _ fields => enumsAll fields

/-- The enums that fields add, in order. -/
def enumsAll : List KeptField → List EnumType
  | [] => []
  | kept :: rest => enums kept ++ enumsAll rest

end

mutual

theorem map_object_shapes : (kept : KeptField) →
    (shapes kept).map KeptShape.object = objectNames kept
  | .value _ _ _ | .reference _ _ _ => by rw [shapes, objectNames, List.map_nil]
  | .shape _ _ object embedded fields => by
    rw [shapes, objectNames, List.map_append, map_object_shapesAll fields]
    rfl

theorem map_object_shapesAll : (kept : List KeptField) →
    (shapesAll kept).map KeptShape.object = objectNamesAll kept
  | [] => by rw [shapesAll, objectNamesAll, List.map_nil]
  | kept :: rest => by
    rw [shapesAll, objectNamesAll, List.map_append, map_object_shapes kept,
      map_object_shapesAll rest]

end

mutual

theorem map_name_enums : (kept : KeptField) → (enums kept).map EnumType.name = enumNames kept
  | .value _ _ _ => by rw [enums, enumNames]
  | .reference _ _ _ => by rw [enums, enumNames, List.map_nil]
  | .shape _ _ _ _ fields => by rw [enums, enumNames, map_name_enumsAll fields]

theorem map_name_enumsAll : (kept : List KeptField) →
    (enumsAll kept).map EnumType.name = enumNamesAll kept
  | [] => by rw [enumsAll, enumNamesAll, List.map_nil]
  | kept :: rest => by
    rw [enumsAll, enumNamesAll, List.map_append, map_name_enums kept, map_name_enumsAll rest]

end

/-! ### Building -/

/-- What building kept fields below the type at a path writes. -/
structure Writes (owner path : String) (kept : List KeptField) (arena built : Arena) : Prop where
  objects : built.objects.map ObjectType.outline = (arena.objects.map ObjectType.outline).insertMany
    ((shapesAll kept).map fun shape => (shape.object, shape.outline))
  enums : built.enums = arena.enums.insertMany ((enumsAll kept).map fun type => (type.name, type))
  pending : built.pending = arena.pending ++ (referencesAll kept).map (Reference.slot owner path)

section Writes

variable {owner path : String}

theorem Writes.nil (arena : Arena) : Writes owner path [] arena arena where
  objects := rfl
  enums := rfl
  pending := (List.append_nil _).symm

theorem Writes.cons {first : KeptField} {rest : List KeptField} {arena built last : Arena}
    (hfirst : Writes owner path [first] arena built) (hrest : Writes owner path rest built last) :
    Writes owner path (first :: rest) arena last where
  objects := by
    rw [hrest.objects, hfirst.objects, ← OrderedMap.insertMany_append, ← List.map_append, shapesAll,
      shapesAll, shapesAll, List.append_nil]
  enums := by
    rw [hrest.enums, hfirst.enums, ← OrderedMap.insertMany_append, ← List.map_append, enumsAll,
      enumsAll, enumsAll, List.append_nil]
  pending := by
    rw [hrest.pending, hfirst.pending, referencesAll, referencesAll, referencesAll, List.append_nil,
      List.map_append, List.append_assoc]

theorem Writes.withInputs {kept : List KeptField} {arena built : Arena}
    (h : Writes owner path kept arena built) (inputs : Mirrors) :
    Writes owner path kept arena { built with inputs } :=
  ⟨h.objects, h.enums, h.pending⟩

end Writes

mutual

/-- Building a type writes what the field adds. -/
theorem writes_type (owner path : String) : (kept : KeptField) → (arena : Arena) →
    Writes owner path [kept] arena ((buildType owner path kept).run arena).2
  | .value head type enums, arena => by
    rw [buildType]
    refine ⟨?_, ?_, ?_⟩
    · rw [shapesAll, shapes, shapesAll]
      rfl
    · rw [enumsAll, KeptField.enums, enumsAll, List.append_nil]
      rfl
    · rw [referencesAll, references, referencesAll]
      exact (List.append_nil _).symm
  | .reference head target cardinality, arena => by
    rw [buildType]
    refine ⟨?_, ?_, ?_⟩
    · rw [shapesAll, shapes, shapesAll]
      rfl
    · rw [enumsAll, enums, enumsAll]
      rfl
    · rw [referencesAll, references, referencesAll]
      rfl
  | .shape head inList object embedded fields, arena => by
    obtain ⟨hwrites, hfields⟩ := writes_all owner (Path.child path head.source) fields ∅ arena
    let built := (buildAll owner (Path.child path head.source) fields ∅).run arena
    have hrun : ((buildType owner path (.shape head inList object embedded fields)).run arena).2 =
        { built.2 with
          objects := built.2.objects.insert object
            { name := object, fields := built.1, embedded } } := by
      rw [buildType]
      rfl
    rw [hrun]
    refine ⟨?_, ?_, ?_⟩
    · rw [shapesAll, shapes, shapesAll, List.append_nil, List.map_append,
        OrderedMap.insertMany_append, ← hwrites.objects, OrderedMap.map_insert]
      exact congrArg (fun fields =>
        (built.2.objects.map ObjectType.outline).insert object (ObjectOutline.mk embedded fields))
        hfields
    · rw [enumsAll, enums, enumsAll, List.append_nil]
      exact hwrites.enums
    · rw [hwrites.pending, referencesAll, references, referencesAll, List.append_nil, List.map_map]
      rfl

/-- Building kept fields writes the types that they add, and their outlines are the declared ones. -/
theorem writes_all (owner path : String) : (kept : List KeptField) →
    (done : OrderedMap String OutputField) → (arena : Arena) →
      let built := (buildAll owner path kept done).run arena
      Writes owner path kept arena built.2 ∧
        built.1.map OutputField.outline = (done.map OutputField.outline).insertMany (outlines kept)
  | [], done, arena => by
    rw [buildAll]
    exact ⟨.nil arena, rfl⟩
  | first :: rest, done, arena => by
    let typed := (buildType owner path first).run arena
    have htyped := writes_type owner path first arena
    obtain ⟨args, inputs, houtput⟩ := run_output_eq first.head typed.1 typed.2
    let placed := (output first.head typed.1).run typed.2
    have hplaced : Writes owner path [first] arena placed.2 := by
      rw [show placed.2 = { typed.2 with inputs } from congrArg Prod.snd houtput]
      exact htyped.withInputs inputs
    obtain ⟨hrest, hfields⟩ := writes_all owner path rest (done.insert placed.1.name placed.1)
      placed.2
    rw [buildAll]
    refine ⟨hplaced.cons hrest, hfields.trans ?_⟩
    rw [OrderedMap.map_insert]
    rfl

end

/-- A field has the name of a kept one when the outlines are those of kept fields. -/
theorem mem_map_name_of_outlines {fields : OrderedMap String OutputField} {kept : List KeptField}
    (h : fields.map OutputField.outline = .ofList (outlines kept)) {key : String}
    {field : OutputField} (hget : fields.get? key = some field) : key ∈ kept.map name := by
  have hkey : key ∈ (fields.map OutputField.outline).keys := by
    rw [OrderedMap.keys_map]
    exact OrderedMap.mem_keys_of_get? hget
  rw [h, OrderedMap.mem_keys_ofList, outlines, List.map_map] at hkey
  exact hkey

end KeptField

/-! ### All models -/

namespace KeptModel

variable (model : KeptModel)

/-- The object types of a model, in the order in which they are finished. -/
def shapes : List KeptShape := KeptField.shapesAll model.fields

/-- The enums of a model, in order. -/
def enums : List EnumType := KeptField.enumsAll model.fields

end KeptModel

theorem map_object_flatMap_shapes (models : List KeptModel) :
    (models.flatMap KeptModel.shapes).map KeptShape.object =
      models.flatMap KeptModel.objectNames := by
  rw [List.map_flatMap]
  exact List.flatMap_congr fun model _ => KeptField.map_object_shapesAll model.fields

theorem map_name_flatMap_enums (models : List KeptModel) :
    (models.flatMap KeptModel.enums).map EnumType.name = models.flatMap KeptModel.enumNames := by
  rw [List.map_flatMap]
  exact List.flatMap_congr fun model _ => KeptField.map_name_enumsAll model.fields

/-- An arena with the roots of kept models, and with their object types, enums and slots. -/
structure Arena.Holds (models : List KeptModel) (arena : Arena) : Prop where
  roots : ∀ name, name ∈ arena.roots.keys ↔ name ∈ models.map KeptModel.owner
  objects : arena.objects.map ObjectType.outline =
    .ofList ((models.flatMap KeptModel.shapes).map fun shape => (shape.object, shape.outline))
  enums : arena.enums = .ofList ((models.flatMap KeptModel.enums).map fun type => (type.name, type))
  connections : arena.connections = ∅
  pending : arena.pending = models.flatMap KeptModel.slots

/-- The first phase of a run writes the types and slots of its kept models. -/
theorem Run.holds (run : Run) (models : List ModelDecl) :
    (run.layOut models).Holds (run.kept models) := by
  refine run.layOut_induct models ⟨fun _ => .rfl, rfl, rfl, rfl, rfl⟩ fun before arena model _ h => ?_
  let kept := ((model.keep run.settings).run arena.seen).1
  have hwrites := (KeptField.writes_all kept.owner "" kept.fields ∅ arena).1
  rw [Arena.run_addModel_kept]
  refine ⟨fun name => ?_, ?_, ?_, h.connections, ?_⟩
  · change name ∈ (arena.roots.insert kept.owner _).keys ↔ _
    rw [OrderedMap.mem_keys_insert, h.roots, List.map_append, List.mem_append, List.map_singleton,
      List.mem_singleton, or_comm]
  · refine hwrites.objects.trans ?_
    rw [h.objects, List.flatMap_append, List.flatMap_singleton, List.map_append, OrderedMap.ofList,
      OrderedMap.ofList, OrderedMap.insertMany_append]
    rfl
  · refine hwrites.enums.trans ?_
    rw [h.enums, List.flatMap_append, List.flatMap_singleton, List.map_append, OrderedMap.ofList,
      OrderedMap.ofList, OrderedMap.insertMany_append]
    rfl
  · refine hwrites.pending.trans ?_
    rw [h.pending, List.flatMap_append, List.flatMap_singleton]
    rfl

section Holds

variable {models : List KeptModel} {arena : Arena} (h : arena.Holds models)

include h

theorem Arena.Holds.mem_objects {name : String} :
    name ∈ arena.objects.keys ↔ name ∈ models.flatMap KeptModel.objectNames := by
  have hkeys : arena.objects.keys = (arena.objects.map ObjectType.outline).keys :=
    OrderedMap.keys_map.symm
  rw [hkeys, h.objects, OrderedMap.mem_keys_ofList, List.map_map, ← map_object_flatMap_shapes]
  rfl

/-- The outline of a finished type is that of the last shape of its name. -/
theorem Arena.Holds.outline {name : String} {type : ObjectType}
    (hget : arena.objects.get? name = some type) :
    ((models.flatMap KeptModel.shapes).reverse.find? fun shape => shape.object = name).map
      KeptShape.outline = some type.outline := by
  have houtline : (arena.objects.map ObjectType.outline).get? name = some type.outline := by
    rw [OrderedMap.get?_map, hget]
    rfl
  rwa [h.objects, OrderedMap.get?_ofList_map] at houtline

theorem Arena.Holds.mem_enums {name : String} :
    name ∈ arena.enums.keys ↔ name ∈ models.flatMap KeptModel.enumNames := by
  rw [h.enums, OrderedMap.mem_keys_ofList, List.map_map, ← map_name_flatMap_enums]
  rfl

end Holds

end ModelGraph
