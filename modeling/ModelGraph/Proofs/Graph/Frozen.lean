import ModelGraph.Proofs.Graph.Build
import ModelGraph.Proofs.Graph.Fresh

/-!
# Reading the graph of an arena

The graph of a finished arena finds the roots of the models and, under all other names, the types of
the arena. Of two types with one name it finds the one of the later kind.

## Main definitions

- `TypeGraph.namedTypes` — the types that are no models

## Main statements

- `Arena.get?_namedTypes` — the type of a name in an arena
- `Run.model?_graphOf`, `Run.type?_graphOf` — what the graph of an arena finds
- `TypeGraph.mem_objects_iff` — the object types of a graph are models or found as other types
- `TypeGraph.fieldAlong?_of_locate` — a path through an arena is one through its graph
-/

namespace ModelGraph

/-- The object type that a named type is. -/
def NamedType.object? : NamedType → Option ObjectType
  | .object type => some type
  | .enum _ | .input _ | .connection _ => none

theorem NamedType.eq_object_of_object? {named : NamedType} {type : ObjectType}
    (h : named.object? = some type) : named = .object type := by
  cases named with
  | object inner => exact congrArg NamedType.object (Option.some.inj h)
  | enum _ | input _ | connection _ => cases h

/-- The type of a name in an arena: connections go before inputs, inputs before enums, and enums
before objects. -/
theorem Arena.get?_namedTypes (arena : Arena) (name : String) :
    arena.namedTypes.get? name =
      ((arena.connections.get? name).map NamedType.connection).or
        (((arena.inputs.get? name).map NamedType.input).or
          (((arena.enums.get? name).map NamedType.enum).or
            ((arena.objects.get? name).map NamedType.object))) := by
  have hlist : arena.namedTypes =
      ((((∅ : OrderedMap String NamedType).insertMany
        (arena.objects.map NamedType.object).toList).insertMany
        (arena.enums.map NamedType.enum).toList).insertMany
        (arena.inputs.map NamedType.input).toList).insertMany
        (arena.connections.map NamedType.connection).toList := by
    rw [Arena.namedTypes, OrderedMap.ofList, OrderedMap.insertMany_append,
      OrderedMap.insertMany_append, OrderedMap.insertMany_append]
    rfl
  simp only [hlist, OrderedMap.get?_insertMany_toList, OrderedMap.get?_map, OrderedMap.get?_empty,
    Option.or_none]

/-- An object type among the named types is the one that was laid out under its name. -/
theorem Arena.get?_objects_of_namedTypes {arena : Arena} {name : String} {type : ObjectType}
    (h : arena.namedTypes.get? name = some (.object type)) : arena.objects.get? name = some type := by
  rw [get?_namedTypes] at h
  have hall := by simpa using h
  exact hall.2.2.2

/-- An enum among the named types is the one that was laid out under its name. -/
theorem Arena.get?_enums_of_namedTypes {arena : Arena} {name : String} {type : EnumType}
    (h : arena.namedTypes.get? name = some (.enum type)) : arena.enums.get? name = some type := by
  rw [get?_namedTypes] at h
  have hall := by simpa using h
  exact hall.2.2

namespace TypeGraph

variable {graph : TypeGraph}

/-- The types that are no models. -/
def namedTypes (graph : TypeGraph) : List NamedType := graph.types.values.map Shared.value

theorem mem_models_iff {type : ObjectType} :
    type ∈ graph.models.values.map Shared.value ↔ ∃ name, graph.model? name = some type :=
  OrderedMap.mem_map_values_iff

theorem mem_namedTypes_iff {type : NamedType} :
    type ∈ graph.namedTypes ↔ ∃ name, graph.type? name = some type :=
  OrderedMap.mem_map_values_iff

/-- The object types of a graph are its models and the objects among its other types. -/
theorem mem_objects_iff {type : ObjectType} : type ∈ graph.objects ↔
    type ∈ graph.models.values.map Shared.value ∨ .object type ∈ graph.namedTypes := by
  rw [objects, List.mem_append, List.mem_filterMap, namedTypes,
    List.mem_map (l := graph.types.values)]
  refine or_congr_right (exists_congr fun shared => and_congr_right fun _ => ?_)
  cases shared.value <;> simp

end TypeGraph

namespace Run

variable (run : Run)

theorem get?_share {α : Type} (place : String → Place) (map : OrderedMap String α)
    (name : String) : (run.share place map).get? name =
      (map.get? name).map fun value => ⟨⟨run.number, place name⟩, value⟩ :=
  OrderedMap.get?_mapWithKey (f := fun name value => Shared.mk ⟨run.number, place name⟩ value)

/-- Placing models without any to reuse moves their roots. -/
theorem foldl_place_fresh (models : List ModelDecl)
    (roots placed : OrderedMap String (Shared ObjectType))
    (types : OrderedMap String (Shared NamedType)) :
    (∀ name, (models.foldl (place ∅) (roots, placed, types)).2.1.get? name =
      if name ∈ models.map (fun model => Naming.sanitize model.name) then
        (roots.get? name).or (placed.get? name)
      else placed.get? name) ∧
    (models.foldl (place ∅) (roots, placed, types)).2.2 = types := by
  induction models generalizing roots placed with
  | nil => exact ⟨fun _ => rfl, rfl⟩
  | cons model rest ih =>
    rw [List.foldl_cons, place]
    simp only [OrderedMap.get?_empty]
    cases hroot : roots.get? (Naming.sanitize model.name) with
    | none =>
      refine ⟨fun name => ?_, (ih roots placed).2⟩
      rw [(ih roots placed).1]
      simp only [List.map_cons, List.mem_cons]
      by_cases hname : name = Naming.sanitize model.name
      · subst hname
        rw [hroot, Option.none_or, ite_self, ite_self]
      · simp only [hname, false_or]
    | some root =>
      refine ⟨fun name => ?_, (ih _ _).2⟩
      rw [(ih _ _).1, OrderedMap.get?_erase, OrderedMap.get?_insert]
      simp only [List.map_cons, List.mem_cons]
      by_cases hname : Naming.sanitize model.name = name
      · subst hname
        rw [if_pos rfl, if_pos rfl, hroot, Option.none_or, ite_self, if_pos (Or.inl rfl),
          Option.some_or]
      · simp only [if_neg hname, Ne.symm hname, false_or]

variable (models : List ModelDecl) (arena : Arena)

/-- The graph of an arena finds the root of a model. -/
theorem model?_graphOf {name : String}
    (h : name ∈ models.map fun model => Naming.sanitize model.name) :
    (run.graphOf models arena).model? name = arena.roots.get? name := by
  have hplaced := (foldl_place_fresh models (run.share .root arena.roots) ∅
    (run.share .type arena.namedTypes)).1 name
  rw [if_pos h, OrderedMap.get?_empty, Option.or_none, get?_share] at hplaced
  rw [TypeGraph.model?]
  refine (congrArg (Option.map Shared.value) hplaced).trans ?_
  rw [Option.map_map]
  exact Option.map_id'

/-- The graph of an arena has no models but those of the run. -/
theorem model?_graphOf_of_notMem {name : String}
    (h : name ∉ models.map fun model => Naming.sanitize model.name) :
    (run.graphOf models arena).model? name = none := by
  have hplaced := (foldl_place_fresh models (run.share .root arena.roots) ∅
    (run.share .type arena.namedTypes)).1 name
  rw [if_neg h, OrderedMap.get?_empty] at hplaced
  exact congrArg (Option.map Shared.value) hplaced

/-- The graph of an arena finds the type of a name that is not a model. -/
theorem type?_graphOf (name : String) :
    (run.graphOf models arena).type? name = arena.namedTypes.get? name := by
  have htypes := (foldl_place_fresh models (run.share .root arena.roots) ∅
    (run.share .type arena.namedTypes)).2
  have hget := congrArg (fun types => (types.get? name).map Shared.value) htypes
  refine hget.trans ?_
  rw [get?_share, Option.map_map]
  exact Option.map_id'

/-- The graph of an arena finds an object type that is alone under its name. -/
theorem object?_graphOf {name : String} {type : ObjectType}
    (h : arena.objects.get? name = some type)
    (hmodel : name ∉ models.map fun model => Naming.sanitize model.name)
    (henum : name ∉ arena.enums.keys) (hinput : name ∉ arena.inputs.keys)
    (hconnection : name ∉ arena.connections.keys) :
    (run.graphOf models arena).object? name = some type := by
  rw [TypeGraph.object?, run.model?_graphOf_of_notMem models arena hmodel, type?_graphOf,
    Arena.get?_namedTypes, OrderedMap.get?_eq_none_iff.2 hconnection,
    OrderedMap.get?_eq_none_iff.2 hinput, OrderedMap.get?_eq_none_iff.2 henum, h]
  rfl

end Run

/-- A path that leads to a field starts from a type. -/
theorem Arena.exists_holder {arena : Arena} {holder : Holder} {names : List String}
    {place : FieldPlace} (hlocate : arena.locate holder names = some place) {field : OutputField}
    (hfield : arena.fieldAt? place = some field) : ∃ type, arena.holder? holder = some type := by
  cases hholder : arena.holder? holder with
  | some type => exact ⟨type, rfl⟩
  | none =>
    have hnone : ∀ name, arena.fieldAt? ⟨holder, name⟩ = none := by
      intro name
      rw [Arena.fieldAt?, hholder, Option.bind_none]
    cases names with
    | nil => cases hlocate
    | cons name rest =>
      cases rest with
      | nil =>
        rw [Arena.locate, Option.some.injEq] at hlocate
        rw [← hlocate, hnone] at hfield
        cases hfield
      | cons next rest =>
        rw [Arena.locate, hnone] at hlocate
        cases hlocate

/-- A path through the types of an arena is one through a graph that finds the same types. -/
theorem TypeGraph.fieldAlong?_of_locate {graph : TypeGraph} {arena : Arena}
    (hobjects : ∀ name type, arena.objects.get? name = some type → graph.object? name = some type)
    {holder : Holder} {type : ObjectType} (hholder : arena.holder? holder = some type)
    {names : List String} {place : FieldPlace} (hlocate : arena.locate holder names = some place)
    {field : OutputField} (hfield : arena.fieldAt? place = some field) :
    graph.fieldAlong? type names = some field := by
  induction names generalizing holder type with
  | nil => cases hlocate
  | cons name rest ih =>
    cases rest with
    | nil =>
      rw [Arena.locate, Option.some.injEq] at hlocate
      subst hlocate
      rw [Arena.fieldAt?, hholder] at hfield
      exact hfield
    | cons next rest =>
      rw [Arena.locate, Arena.fieldAt?, hholder, Option.bind_some] at hlocate
      rw [fieldAlong?]
      · cases hstep : type.fields.get? name with
        | none =>
          rw [hstep] at hlocate
          cases hlocate
        | some step =>
          rw [hstep, Option.bind_some] at hlocate
          cases hobject : step.type.objectName? with
          | none =>
            rw [hobject] at hlocate
            cases hlocate
          | some object =>
            rw [hobject] at hlocate
            obtain ⟨inner, hinner⟩ := Arena.exists_holder hlocate hfield
            rw [Option.bind_some, objectOf?, hobject, Option.bind_some, hobjects object inner hinner,
              Option.bind_some]
            exact ih hinner hlocate
      · simp

end ModelGraph
