import ModelGraph.Proofs.Graph.Modular

/-!
# Graphs that stand for models

A graph stands for models when it has their roots in order, and finds for each what the model reaches
on its own. Two such graphs agree on everything that is reached from a root, and such a graph is valid
when all that its models reach passes.

## Main definitions

- `TypeGraph.Alike` — graphs with the same models that agree on what these reach
- `Run.Faithful` — graphs that stand for models

## Main statements

- `TypeGraph.checkField_iff_passes` — validation accepts the fields that pass
- `Run.Faithful.alike` — graphs that stand for the same models are alike
- `Run.Faithful.shows_of_validate`, `Run.Faithful.validate_of_shows` — when a graph is valid
-/

namespace ModelGraph

namespace TypeGraph

/-- Whether a name is reached from a model of a graph. -/
def Reachable (graph : TypeGraph) (name : String) : Prop :=
  ∃ root ∈ graph.models.values, Reaches graph.type? root.value.mentions name

/-- Graphs with the same models in the same order, which reach the same names and the same types
under them. -/
structure Alike (graph other : TypeGraph) : Prop where
  models : graph.models.map Shared.value = other.models.map Shared.value
  reachable : ∀ name, graph.Reachable name ↔ other.Reachable name
  types : ∀ name, graph.Reachable name → graph.type? name = other.type? name

variable {graph : TypeGraph}

theorem enum?_eq_some_iff {name : String} {type : EnumType} :
    graph.enum? name = some type ↔ graph.type? name = some (.enum type) := by
  rw [enum?]
  split <;> simp_all

theorem input?_eq_some_iff {name : String} {type : InputType} :
    graph.input? name = some type ↔ graph.type? name = some (.input type) := by
  rw [input?]
  split <;> simp_all

theorem connection?_eq_some_iff {name : String} {type : ConnectionType} :
    graph.connection? name = some type ↔ graph.type? name = some (.connection type) := by
  rw [connection?]
  split <;> simp_all

theorem isSome_object?_iff {name : String} : (graph.object? name).isSome ↔
    (graph.model? name).isSome ∨ ∃ type, graph.type? name = some (.object type) := by
  rw [object?]
  cases graph.model? name with
  | some type => simp
  | none =>
    dsimp only
    split <;> simp_all

theorem danglingType?_object {name : String} :
    graph.danglingType? (.object name) = none ↔ (graph.object? name).isSome := by
  rw [danglingType?]
  cases graph.object? name <;> simp

theorem danglingType?_enum {name : String} :
    graph.danglingType? (.enum name) = none ↔ (graph.enum? name).isSome := by
  rw [danglingType?]
  cases graph.enum? name <;> simp

theorem danglingType?_connection {name : String} :
    graph.danglingType? (.connection name) = none ↔
      ∃ type, graph.connection? name = some type ∧ (graph.model? type.node).isSome := by
  rw [danglingType?]
  cases graph.connection? name with
  | none => simp
  | some type => simp [Option.isSome_iff_ne_none]

theorem find?_isInputName_eq_none_iff {args : List Argument} :
    args.find? (fun arg => !graph.isInputName arg.type.innermost) = none ↔
      ∀ arg ∈ args, graph.isInputName arg.type.innermost = true := by
  simp

/-- A field passes when it is no slot and mentions nothing in vain. -/
theorem checkField_eq_ok_iff {owner : String} {field : OutputField} :
    graph.checkField owner field = .ok () ↔ field.type.isUnresolved = false ∧
      graph.danglingType? field.type.innermost = none ∧
        ∀ arg ∈ field.args, graph.isInputName arg.type.innermost = true := by
  rw [← find?_isInputName_eq_none_iff, FieldType.isUnresolved, checkField]
  cases graph.danglingType? field.type.innermost with
  | some name =>
    constructor
    · intro h
      split at h <;> cases h
    · rintro ⟨-, h, -⟩
      cases h
  | none =>
    cases field.args.find? fun arg => !graph.isInputName arg.type.innermost with
    | some arg =>
      constructor
      · intro h
        split at h <;> cases h
      · rintro ⟨-, -, h⟩
        cases h
    | none =>
      cases field.type.innermost with
      | unresolved slot =>
        constructor
        · intro h
          cases h
        · rintro ⟨h, -⟩
          cases h
      | scalar _ | enum _ | object _ | connection _ | list _ | nonNull _ =>
        exact ⟨fun _ => ⟨rfl, rfl, rfl⟩, fun _ => rfl⟩

/-- A graph is valid when all fields of its object types are. -/
theorem validate_eq_ok_iff : graph.validate = .ok () ↔ ∀ type ∈ graph.objects,
    ∀ field ∈ type.fields.values, graph.checkField type.name field = .ok () := by
  rw [validate, forM_eq_ok_iff]
  exact forall₂_congr fun type _ => forM_eq_ok_iff

/-! ### Fields that pass -/

/-- Whether a name is that of a model of a graph. -/
def IsModel (graph : TypeGraph) (name : String) : Prop := (graph.model? name).isSome

theorem known_iff {type : FieldType} : type.Known graph.IsModel graph.type? ↔
    type.isUnresolved = false ∧ graph.danglingType? type.innermost = none := by
  induction type with
  | scalar kind => exact ⟨fun _ => ⟨rfl, rfl⟩, fun _ => trivial⟩
  | unresolved slot => exact ⟨False.elim, fun h => by cases h.1⟩
  | list element ih => exact ih
  | nonNull inner ih => exact ih
  | enum name =>
    refine Iff.trans ?_ (and_iff_right rfl).symm
    refine Iff.trans ?_ danglingType?_enum.symm
    simp only [FieldType.Known, Option.isSome_iff_exists, enum?_eq_some_iff]
  | object name =>
    refine Iff.trans ?_ (and_iff_right rfl).symm
    exact isSome_object?_iff.symm.trans danglingType?_object.symm
  | connection name =>
    refine Iff.trans ?_ (and_iff_right rfl).symm
    refine Iff.trans ?_ danglingType?_connection.symm
    simp only [FieldType.Known, connection?_eq_some_iff, IsModel]

theorem known_arg_iff {type : ArgType} :
    type.Known graph.type? ↔ graph.isInputName type.innermost = true := by
  rw [isInputName, ArgType.Known, ← Arguments.isBuiltIn]
  simp only [Bool.or_eq_true, Option.isSome_iff_exists, enum?_eq_some_iff, input?_eq_some_iff,
    or_assoc]

theorem checkField_iff_passes {owner : String} {field : OutputField} :
    graph.checkField owner field = .ok () ↔ field.Passes graph.IsModel graph.type? := by
  rw [checkField_eq_ok_iff, ← and_assoc, ← known_iff]
  simp only [← known_arg_iff]
  exact ⟨fun h => ⟨h.1, h.2⟩, fun h => ⟨h.type, h.args⟩⟩

end TypeGraph

namespace Run

variable (run : Run)

/-- A graph with the roots of models in order, in which names stand for what they do for the models
that reach them. -/
structure Faithful (models : List ModelDecl) (graph : TypeGraph) : Prop where
  identity : graph.identity = run.identity
  keys : graph.models.keys = models.map ModelDecl.rootName
  roots : ∀ model ∈ models,
    graph.model? model.rootName = (run.alone model).roots.get? model.rootName
  types : ∀ model ∈ models, ∀ name, run.ReachedBy model name →
    graph.type? name = (run.alone model).namedTypes.get? name

section Faithful

variable {run : Run} {model : ModelDecl} {models : List ModelDecl} {graph other : TypeGraph}

theorem Faithful.isModel_iff (h : run.Faithful models graph) {name : String} :
    graph.IsModel name ↔ IsRootName models name := by
  rw [TypeGraph.IsModel, TypeGraph.model?, Option.isSome_map, Option.isSome_iff_exists,
    ← OrderedMap.mem_keys_iff, h.keys, IsRootName]

/-- Every root of the graph is that of a model. -/
theorem Faithful.exists_model (h : run.Faithful models graph) {root : Shared ObjectType}
    (hroot : root ∈ graph.models.values) : ∃ model ∈ models,
      (run.alone model).roots.get? model.rootName = some root.value := by
  obtain ⟨name, hget⟩ := OrderedMap.mem_values_iff.1 hroot
  have hkey := OrderedMap.mem_keys_of_get? hget
  rw [h.keys] at hkey
  obtain ⟨model, hmodel, rfl⟩ := List.mem_map.1 hkey
  refine ⟨model, hmodel, ?_⟩
  rw [← h.roots model hmodel, TypeGraph.model?, hget, Option.map_some]

/-- The root of every model is one of the graph. -/
theorem Faithful.exists_root (h : run.Faithful models graph) (hmodel : model ∈ models)
    {root : ObjectType} (hroot : (run.alone model).roots.get? model.rootName = some root) :
    ∃ shared ∈ graph.models.values, shared.value = root := by
  rw [← h.roots model hmodel, TypeGraph.model?] at hroot
  obtain ⟨shared, hshared, hvalue⟩ := Option.map_eq_some_iff.1 hroot
  exact ⟨shared, OrderedMap.mem_values_iff.2 ⟨_, hshared⟩, hvalue⟩

/-- What is reached in a graph that stands for models is what the models reach on their own. -/
theorem Faithful.reachable_iff (h : run.Faithful models graph) {name : String} :
    graph.Reachable name ↔ ∃ model ∈ models, run.ReachedBy model name := by
  constructor
  · rintro ⟨root, hroot, hreach⟩
    obtain ⟨model, hmodel, hget⟩ := h.exists_model hroot
    exact ⟨model, hmodel, (reaches_iff_reachedBy (h.types model hmodel) hget).1 hreach⟩
  · rintro ⟨model, hmodel, hreach⟩
    obtain ⟨root, hroot, -⟩ := id hreach
    obtain ⟨shared, hshared, rfl⟩ := h.exists_root hmodel hroot
    exact ⟨shared, hshared, (reaches_iff_reachedBy (h.types model hmodel) hroot).2 hreach⟩

/-- Graphs that stand for the same models are alike. -/
theorem Faithful.alike (h : run.Faithful models graph) (hother : run.Faithful models other) :
    graph.Alike other where
  models := by
    refine OrderedMap.eq_of_keys_of_get? ?_ fun name hname => ?_
    · rw [OrderedMap.keys_map, OrderedMap.keys_map, h.keys, hother.keys]
    · rw [OrderedMap.keys_map, h.keys] at hname
      obtain ⟨model, hmodel, rfl⟩ := List.mem_map.1 hname
      rw [OrderedMap.get?_map, OrderedMap.get?_map]
      exact (h.roots model hmodel).trans (hother.roots model hmodel).symm
  reachable name := h.reachable_iff.trans hother.reachable_iff.symm
  types name hname := by
    obtain ⟨model, hmodel, hreach⟩ := h.reachable_iff.1 hname
    rw [h.types model hmodel name hreach, hother.types model hmodel name hreach]

/-! ### Validation -/

/-- The root of a model, and every object type below it, is an object type of the graph. -/
theorem Faithful.mem_objects (h : run.Faithful models graph) (hmodel : model ∈ models)
    {type : ObjectType} (htype : run.Below model type) : type ∈ graph.objects := by
  rw [TypeGraph.mem_objects_iff]
  rcases htype with hroot | ⟨name, hreach, hget⟩
  · obtain ⟨shared, hshared, hvalue⟩ := h.exists_root hmodel hroot
    exact .inl (List.mem_map.2 ⟨shared, hshared, hvalue⟩)
  · rw [← h.types model hmodel name hreach] at hget
    exact .inr (TypeGraph.mem_namedTypes_iff.2 ⟨name, hget⟩)

/-- A field below a model passes in the graph when it does for the model. -/
theorem Faithful.passes_iff (h : run.Faithful models graph) (hmodel : model ∈ models)
    {type : ObjectType} (htype : run.Below model type) {field : OutputField}
    (hfield : field ∈ type.fields.values) : field.Passes graph.IsModel graph.type? ↔
      field.Passes (IsRootName models) (run.alone model).namedTypes.get? := by
  have hsame : ∀ name ∈ field.mentions,
      graph.type? name = (run.alone model).namedTypes.get? name := fun name hname =>
    h.types model hmodel name (mentions_below htype hfield hname)
  constructor
  · intro hpasses
    exact hpasses.imp (fun _ => h.isModel_iff.1) fun name hname _ hget =>
      (hsame name hname).symm.trans hget
  · intro hpasses
    exact hpasses.imp (fun _ => h.isModel_iff.2) fun name hname _ hget =>
      (hsame name hname).trans hget

/-- In a valid graph, all that its models reach passes. -/
theorem Faithful.shows_of_validate (h : run.Faithful models graph) (hvalid : graph.validate = .ok ()) :
    ∀ model ∈ models, run.Shows models model := by
  intro model hmodel type htype field hfield
  rw [TypeGraph.validate_eq_ok_iff] at hvalid
  have hchecked := hvalid type (h.mem_objects hmodel htype) field hfield
  exact (h.passes_iff hmodel htype hfield).1 (TypeGraph.checkField_iff_passes.1 hchecked)

/-- A graph is valid when all that its models reach passes, and its other object types do. -/
theorem Faithful.validate_of_shows (h : run.Faithful models graph)
    (hshows : ∀ model ∈ models, run.Shows models model)
    (hothers : ∀ type, .object type ∈ graph.namedTypes →
      (∃ model ∈ models, run.Below model type) ∨
        ∀ field ∈ type.fields.values, field.Passes graph.IsModel graph.type?) :
    graph.validate = .ok () := by
  rw [TypeGraph.validate_eq_ok_iff]
  intro type htype field hfield
  rw [TypeGraph.checkField_iff_passes]
  have hbelow : ∀ model ∈ models, run.Below model type →
      field.Passes graph.IsModel graph.type? := fun model hmodel hbelow =>
    (h.passes_iff hmodel hbelow hfield).2 (hshows model hmodel type hbelow field hfield)
  rcases TypeGraph.mem_objects_iff.1 htype with hroot | hobject
  · obtain ⟨root, hmem, rfl⟩ := List.mem_map.1 hroot
    obtain ⟨model, hmodel, hget⟩ := h.exists_model hmem
    exact hbelow model hmodel (.inl hget)
  · rcases hothers type hobject with ⟨model, hmodel, hmem⟩ | hpasses
    · exact hbelow model hmodel hmem
    · exact hpasses field hfield

end Faithful

end Run

end ModelGraph
