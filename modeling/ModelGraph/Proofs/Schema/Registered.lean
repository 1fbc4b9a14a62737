import ModelGraph.Proofs.Graph.Furnished
import ModelGraph.Proofs.Schema.Ways

/-!
# The types of an exported schema

A schema finds types among those that were registered, each under its own name. An object type of
the graph is registered with a field for each of its own, which reads just that one; the root type
and the types of connections read no stored field. Where no name is registered twice, every type of
the graph is found.

## Main definitions

- `Schema.Apart` — a graph whose types are registered under names of their own
- `Schema.Exports` — a schema with the types that are registered for a graph

## Main statements

- `Schema.exports_of_ofGraph` — the schema of a graph has the registered types
- `Schema.Exports.object_cases` — what object types read
- `Schema.Exports.type?_of_mem` — registered types with names of their own are found
-/

namespace ModelGraph

/-- Steps that succeed one after another match their inputs with their results. -/
theorem forall₂_of_mapM {ε α β : Type} {step : α → Except ε β} {xs : List α} {ys : List β}
    (h : xs.mapM step = .ok ys) : List.Forall₂ (fun x y => step x = .ok y) xs ys := by
  induction xs generalizing ys with
  | nil =>
    cases h
    exact .nil
  | cons x rest ih =>
    rw [List.mapM_cons] at h
    obtain ⟨y, hy, h⟩ := bind_eq_ok_iff.1 h
    obtain ⟨others, hothers, h⟩ := bind_eq_ok_iff.1 h
    cases h
    exact .cons hy (ih hothers)

theorem exists_of_forall₂ {α β : Type} {relation : α → β → Prop} {xs : List α} {ys : List β}
    (h : List.Forall₂ relation xs ys) : ∀ y ∈ ys, ∃ x ∈ xs, relation x y := by
  induction h with
  | nil => simp
  | cons hxy _ ih =>
    intro y hy
    rcases List.mem_cons.1 hy with rfl | hy
    · exact ⟨_, List.mem_cons_self .., hxy⟩
    · obtain ⟨x, hx, hrelated⟩ := ih y hy
      exact ⟨x, List.mem_cons_of_mem _ hx, hrelated⟩

theorem map_eq_map_of_forall₂ {α β γ : Type} {relation : α → β → Prop} {xs : List α} {ys : List β}
    {f : α → γ} {g : β → γ} (h : List.Forall₂ relation xs ys)
    (heq : ∀ x y, relation x y → g y = f x) : ys.map g = xs.map f := by
  induction h with
  | nil => rfl
  | cons hxy _ ih => rw [List.map_cons, List.map_cons, heq _ _ hxy, ih]

theorem exists_of_forall₂' {α β : Type} {relation : α → β → Prop} {xs : List α} {ys : List β}
    (h : List.Forall₂ relation xs ys) : ∀ x ∈ xs, ∃ y ∈ ys, relation x y :=
  exists_of_forall₂ h.flip

namespace Schema

variable {ω : Type} {registry : HookRegistry ω} {graph : TypeGraph} {schema : Schema}
  {all : List SchemaType}

/-! ### Object types -/

theorem outputField_eq_ok {owner : String} {output : OutputField} {field : SchemaField}
    (h : outputField registry owner output = .ok field) :
    field.name = output.name ∧ field.reader = .stored owner output ∧
      field.parameters = output.args.map (fun arg => ⟨arg.name, .ofArg arg.type⟩) ∧
        TypeRef.ofField? output.type = .ok field.type := by
  obtain ⟨-, -, h⟩ := bind_eq_ok_iff.1 h
  obtain ⟨type, htype, h⟩ := bind_eq_ok_iff.1 h
  cases h
  exact ⟨rfl, rfl, rfl, mapError_eq_ok_iff.1 htype⟩

theorem objectType_eq_ok {type : ObjectType} {found : SchemaType}
    (h : objectType registry type = .ok found) : ∃ fields,
      List.Forall₂ (fun output field => outputField registry type.name output = .ok field)
        type.fields.values fields ∧
      found = .object
        { name := type.name, description := type.description, fields,
          interface := type.identity.map fun _ => Identity.interface } := by
  obtain ⟨fields, hfields, h⟩ := bind_eq_ok_iff.1 h
  cases h
  exact ⟨fields, forall₂_of_mapM hfields, rfl⟩

/-- A field of a schema's object type is that of the graph's type under the same name. -/
theorem field?_of_objectType {type : ObjectType} {object : SchemaObject}
    (h : objectType registry type = .ok (.object object)) (hfields : Furnishes type.fields)
    (name : String) :
    match type.fields.get? name with
    | some output => ∃ field, object.field? name = some field ∧
        outputField registry type.name output = .ok field
    | none => object.field? name = none := by
  obtain ⟨fields, hmatch, heq⟩ := objectType_eq_ok h
  obtain rfl := SchemaType.object.inj heq
  have hkeys : ∀ entry ∈ type.fields.entries, entry.2.name = entry.1 := fun entry hentry =>
    (hfields entry.1 entry.2 (OrderedMap.get?_eq_some_iff.2 hentry)).name_eq
  rw [SchemaObject.field?]
  rw [OrderedMap.values] at hmatch
  rw [OrderedMap.get?]
  generalize type.fields.entries = entries at hmatch hkeys
  dsimp only
  clear heq h
  induction entries generalizing fields with
  | nil =>
    cases hmatch
    rfl
  | cons entry rest ih =>
    obtain ⟨key, output⟩ := entry
    obtain ⟨hkey, hrest⟩ := List.forall_mem_cons.1 hkeys
    rw [List.map_cons] at hmatch
    cases hmatch with
    | @cons _ field _ others hfield hothers =>
      have hname : field.name = key := (outputField_eq_ok hfield).1.trans hkey
      by_cases heq : key = name
      · rw [Assoc.get?, if_pos heq, List.find?_cons_of_pos (by simp [hname, heq])]
        exact ⟨field, rfl, hfield⟩
      · rw [Assoc.get?, if_neg heq, List.find?_cons_of_neg (by simp [hname, heq])]
        exact ih others hothers hrest

/-! ### Registered types -/

/-- A model is registered with its object type and two root fields. -/
theorem modelParts_eq_ok {model : ObjectType} {parts : SchemaType × List SchemaField}
    (h : modelParts registry model = .ok parts) :
    objectType registry model = .ok parts.1 ∧ parts.2 = [manyField model, byIdField model] := by
  obtain ⟨type, htype, h⟩ := bind_eq_ok_iff.1 h
  obtain ⟨_, -, h⟩ := bind_eq_ok_iff.1 h
  cases h
  exact ⟨htype, rfl⟩

theorem registered_eq_ok (h : registered graph registry = .ok all) : ∃ models named,
    List.Forall₂ (fun model parts => modelParts registry model = .ok parts)
      (graph.models.values.map Shared.value) models ∧
    List.Forall₂ (fun type types => namedTypes graph registry type = .ok types)
      graph.namedTypes named ∧
    repeated? ((models.flatMap Prod.snd).map SchemaField.name) = none ∧
    all = baseTypes ++ models.map Prod.fst ++ named.flatten ++
      [.object { name := query, fields := models.flatMap Prod.snd }] := by
  obtain ⟨models, hmodels, h⟩ := bind_eq_ok_iff.1 h
  obtain ⟨named, hnamed, h⟩ := bind_eq_ok_iff.1 h
  dsimp only at h
  split at h
  · cases h
  · next hfields =>
    cases h
    exact ⟨models, named, forall₂_of_mapM hmodels, forall₂_of_mapM hnamed, hfields, rfl⟩

/-- No two of the types that are registered for a graph have one name. -/
def Apart (graph : TypeGraph) (registry : HookRegistry ω) : Prop :=
  ∀ all, registered graph registry = .ok all → (all.map SchemaType.name).Nodup

instance (graph : TypeGraph) (registry : HookRegistry ω) : Decidable (Apart graph registry) :=
  decidable_of_iff (((registered graph registry).toOption.all fun all =>
    decide (all.map SchemaType.name).Nodup) = true) (by
      rw [Apart]
      cases registered graph registry <;> simp [Except.toOption])

/-- A schema with the types that are registered for a graph, the last one under each name. -/
structure Exports (schema : Schema) (graph : TypeGraph) (registry : HookRegistry ω)
    (all : List SchemaType) : Prop where
  graph_eq : schema.graph = graph
  registered_eq : registered graph registry = .ok all
  types_eq : schema.types = .ofList (all.map fun type => (type.name, type))
  checked : ∀ type ∈ schema.types.values, checkType schema.types type = .ok ()

theorem exports_of_ofGraph (h : ofGraph graph registry = .ok schema) :
    ∃ all, schema.Exports graph registry all := by
  obtain ⟨all, hall, h⟩ := bind_eq_ok_iff.1 h
  obtain ⟨_, hcheck, h⟩ := bind_eq_ok_iff.1 h
  cases h
  exact ⟨all, rfl, hall, rfl, forM_eq_ok_iff.1 hcheck⟩

section Exports

variable (h : schema.Exports graph registry all)

include h

/-- A type that is found is a scalar of every schema, or was registered under its name. -/
theorem Exports.type?_cases {name : String} {type : SchemaType}
    (htype : schema.type? name = some type) :
    type = .scalar name ∨ type ∈ all ∧ type.name = name := by
  rw [type?, typeOf?] at htype
  split at htype
  · exact .inl (Option.some.inj htype).symm
  · rw [h.types_eq] at htype
    obtain ⟨found, hfound, heq⟩ := List.mem_map.1 (OrderedMap.mem_of_get?_ofList htype)
    cases heq
    exact .inr ⟨hfound, rfl⟩

theorem Exports.mem_of_object? {name : String} {object : SchemaObject}
    (hobject : schema.object? name = some object) : .object object ∈ all ∧ object.name = name := by
  rw [object?] at hobject
  split at hobject
  · next found htype =>
    cases hobject
    exact (h.type?_cases htype).resolve_left (fun heq => by cases heq)
  · cases hobject

/-- A registered type whose name no other one has is kept, and passes the checks. -/
theorem Exports.checked_of_mem (hnames : (all.map SchemaType.name).Nodup) {type : SchemaType}
    (htype : type ∈ all) :
    schema.types.get? type.name = some type ∧ checkType schema.types type = .ok () := by
  have hnodup : ((all.map fun type => (type.name, type)).map Prod.fst).Nodup := by
    rwa [List.map_map]
  have hget : schema.types.get? type.name = some type := by
    rw [h.types_eq, OrderedMap.get?_ofList_eq_some_iff hnodup]
    exact List.mem_map_of_mem htype
  exact ⟨hget, h.checked type (OrderedMap.mem_values_iff.2 ⟨type.name, hget⟩)⟩

/-- A registered type whose name no other one has is found. -/
theorem Exports.type?_of_mem (hnames : (all.map SchemaType.name).Nodup) {type : SchemaType}
    (htype : type ∈ all) : schema.type? type.name = some type := by
  obtain ⟨hget, hcheck⟩ := h.checked_of_mem hnames htype
  rw [type?, typeOf?, if_neg ?_, hget]
  intro hbuiltIn
  unfold checkType at hcheck
  rw [if_pos hbuiltIn] at hcheck
  cases hcheck

/-- An object type of a schema reads the stored fields of an object type of the graph, or it is the
root type or that of a connection, and reads no stored fields. -/
theorem Exports.object_cases {object : SchemaObject} (hobject : .object object ∈ all) :
    (∃ type ∈ graph.objects, objectType registry type = .ok (.object object)) ∨
      ∀ field ∈ object.fields, field.reader.output? = none ∧
        ∀ model, field.reader.model? = some model →
          model ∈ graph.models.values.map Shared.value ∧ field.type.innermost = model.name := by
  obtain ⟨models, named, hmodels, hnamed, -, rfl⟩ := registered_eq_ok h.registered_eq
  simp only [List.mem_append, List.mem_singleton, List.mem_map, List.mem_flatten] at hobject
  rcases hobject with ((hbase | ⟨parts, hparts, heq⟩) | ⟨types, htypes, hmem⟩) | hroot
  · simp [baseTypes] at hbase
  · obtain ⟨model, hmodel, hparts⟩ := exists_of_forall₂ hmodels parts hparts
    exact .inl ⟨model, TypeGraph.mem_objects_iff.2 (.inl hmodel), heq ▸ (modelParts_eq_ok hparts).1⟩
  · obtain ⟨type, htype, htypes⟩ := exists_of_forall₂ hnamed types htypes
    cases type with
    | object source =>
      obtain ⟨found, hfound, rfl⟩ := map_eq_ok_iff.1 htypes
      obtain rfl := List.mem_singleton.1 hmem
      exact .inl ⟨source, TypeGraph.mem_objects_iff.2 (.inr htype), hfound⟩
    | enum enum | input input =>
      cases htypes
      cases List.mem_singleton.1 hmem
    | connection connection =>
      cases htypes
      refine .inr fun field hfield => ?_
      simp only [connectionTypes, List.mem_cons, SchemaType.object.injEq, List.not_mem_nil,
        or_false] at hmem
      rcases hmem with rfl | rfl <;>
      · simp only [List.mem_cons, List.not_mem_nil, or_false] at hfield
        rcases hfield with rfl | rfl <;> exact ⟨rfl, fun _ hother => by cases hother⟩
  · obtain rfl := SchemaType.object.inj hroot
    refine .inr fun field hfield => ?_
    obtain ⟨parts, hparts, hfield⟩ := List.mem_flatMap.1 hfield
    obtain ⟨model, hmodel, hparts⟩ := exists_of_forall₂ hmodels parts hparts
    rw [(modelParts_eq_ok hparts).2] at hfield
    simp only [List.mem_cons, List.not_mem_nil, or_false] at hfield
    rcases hfield with rfl | rfl <;>
    · refine ⟨rfl, fun other hother => ?_⟩
      cases hother
      exact ⟨hmodel, rfl⟩

/-! ### The types of the graph -/

/-- An object type of the graph is registered. -/
theorem Exports.exists_objectType {type : ObjectType} (htype : type ∈ graph.objects) :
    ∃ object, objectType registry type = .ok (.object object) ∧ .object object ∈ all := by
  obtain ⟨models, named, hmodels, hnamed, -, rfl⟩ := registered_eq_ok h.registered_eq
  rcases TypeGraph.mem_objects_iff.1 htype with hmodel | hobject
  · obtain ⟨⟨found, fields⟩, hmem, hparts⟩ := exists_of_forall₂' hmodels type hmodel
    have hfound := (modelParts_eq_ok hparts).1
    obtain ⟨_, -, rfl⟩ := objectType_eq_ok hfound
    exact ⟨_, hfound, by simp [List.mem_map_of_mem (f := Prod.fst) hmem]⟩
  · obtain ⟨types, hmem, htypes⟩ := exists_of_forall₂' hnamed (.object type) hobject
    obtain ⟨found, hfound, rfl⟩ := map_eq_ok_iff.1 htypes
    obtain ⟨fields, -, rfl⟩ := objectType_eq_ok hfound
    refine ⟨_, hfound, ?_⟩
    simp only [List.mem_append, List.mem_flatten]
    exact .inl (.inr ⟨_, hmem, List.mem_singleton_self _⟩)

/-- What a named type of the graph is registered as. -/
theorem Exports.subset_of_type? {name : String} {type : NamedType}
    (htype : graph.type? name = some type) :
    ∃ types, namedTypes graph registry type = .ok types ∧ types ⊆ all := by
  obtain ⟨models, named, -, hnamed, -, rfl⟩ := registered_eq_ok h.registered_eq
  obtain ⟨shared, hshared, rfl⟩ := Option.map_eq_some_iff.1 htype
  obtain ⟨types, hmem, htypes⟩ := exists_of_forall₂' hnamed shared.value
    (List.mem_map_of_mem (OrderedMap.mem_values_iff.2 ⟨name, hshared⟩))
  refine ⟨types, htypes, fun found hfound => ?_⟩
  simp only [List.mem_append, List.mem_flatten]
  exact .inl (.inr ⟨types, hmem, hfound⟩)

/-- What a named type of the graph is registered as is found. -/
theorem Exports.type?_of_named (hnames : (all.map SchemaType.name).Nodup) {name : String}
    {type : NamedType} (htype : graph.type? name = some type) {types : List SchemaType}
    (htypes : namedTypes graph registry type = .ok types) {found : SchemaType}
    (hmem : found ∈ types) : schema.type? found.name = some found := by
  obtain ⟨others, hothers, hsub⟩ := h.subset_of_type? htype
  obtain rfl := Except.ok.inj (htypes.symm.trans hothers)
  exact h.type?_of_mem hnames (hsub hmem)

end Exports

end Schema

end ModelGraph
