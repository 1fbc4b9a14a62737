import ModelGraph.Proofs.Cache.Labels
import ModelGraph.Proofs.Graph.Local
import ModelGraph.Proofs.Schema.Registered

/-!
# The names that a schema exports

Types are registered under their names, and a later type takes the place of an earlier one of the
same name. Which names can meet follows from the names of kinds. Enums, inputs, connections and
edges meet neither each other nor the names that every schema has. Models are kept apart from all
other types, and no step of a run compares the two, so a model can have the name of any other type,
of an edge, or one that every schema has; and an object type can have the name of an edge, or one
that every schema has. Root fields meet when models differ in the case of their first letters.

## Main definitions

- `Schema.typeNames`, `Schema.rootFieldNames` — the names of a graph's types and root fields
- `TypeGraph.Clear` — a graph whose models and objects take no names of others

## Main statements

- `Schema.map_name_registered` — types are registered under the names of the graph
- `TypeGraph.Labelled.nodup_typeNames_iff` — when the names of types are distinct
- `Schema.nodup_rootFieldNames_iff` — when the names of root fields are distinct
- `Run.distinct_names_of_synthesizeCached` — both for the graphs that callers get
-/

namespace ModelGraph

/-- The names that a type is exported under. A connection has its edge along. -/
def NamedType.exportNames : NamedType → List String
  | .object type => [type.name]
  | .enum type => [type.name]
  | .input type => [type.name]
  | .connection type => [type.name, type.edge]

namespace TypeGraph

/-- The names of the models. -/
def modelNames (graph : TypeGraph) : List String :=
  (graph.models.values.map Shared.value).map ObjectType.name

end TypeGraph

namespace Schema

/-- The names that every schema has. -/
def fixedNames : List String := baseTypes.map SchemaType.name ++ [query]

/-- The names that the types of a graph are registered under, in order. -/
def typeNames (graph : TypeGraph) : List String :=
  baseTypes.map SchemaType.name ++ graph.modelNames
    ++ graph.namedTypes.flatMap NamedType.exportNames ++ [query]

/-- The names of the root fields of a graph, in order. -/
def rootFieldNames (graph : TypeGraph) : List String :=
  graph.modelNames.flatMap fun model =>
    [Text.lowerFirst model ++ "Many", Text.lowerFirst model ++ "ById"]

end Schema

/-- A graph whose models have names of their own, and whose object types have neither names that
every schema has nor those of edges. -/
structure TypeGraph.Clear (graph : TypeGraph) : Prop where
  models : graph.modelNames.Nodup
  fixed : ∀ type ∈ graph.objects, type.name ∉ Schema.fixedNames
  types : ∀ name ∈ graph.modelNames, graph.type? name = none
  edges : ∀ name connection, graph.connection? name = some connection →
    ∀ type ∈ graph.objects, type.name ≠ connection.edge

/-! ### Which names can meet -/

namespace NamedType

variable {type other : NamedType} {name : String}

theorem mem_exportNames_iff : name ∈ type.exportNames ↔
    name = type.name ∨ ∃ connection, type = .connection connection ∧ name = connection.edge := by
  cases type <;> simp [exportNames, NamedType.name]

theorem name_mem_exportNames (type : NamedType) : type.name ∈ type.exportNames :=
  mem_exportNames_iff.2 (.inl rfl)

/-- Only objects can have names that every schema has. -/
theorem Labelled.object_of_fixed (h : type.Labelled) (hmem : name ∈ type.exportNames)
    (hfixed : name ∈ Schema.fixedNames) : ∃ object, type = .object object ∧ name = object.name := by
  cases type with
  | object object => exact ⟨object, rfl, List.mem_singleton.1 hmem⟩
  | enum enum =>
    obtain ⟨parent, field, heq⟩ := h
    rw [List.mem_singleton.1 hmem, heq] at hfixed
    exact absurd hfixed (Naming.append_notMem (by decide) _)
  | input input =>
    obtain ⟨object, heq⟩ := h
    rw [List.mem_singleton.1 hmem, heq] at hfixed
    exact absurd hfixed (Naming.append_notMem (by decide) _)
  | connection connection =>
    obtain ⟨owner, path, hname, hedge⟩ := h
    rcases List.mem_pair.1 hmem with heq | heq
    · rw [heq, hname] at hfixed
      exact absurd hfixed (Naming.append_notMem (by decide) _)
    · rw [heq, hedge] at hfixed
      exact absurd hfixed (Naming.append_notMem (by decide) _)

/-- Only objects can have the names of edges. -/
theorem Labelled.object_of_edge (h : type.Labelled) {connection : ConnectionType}
    (hconnection : (NamedType.connection connection).Labelled) (heq : type.name = connection.edge) :
    ∃ object, type = .object object := by
  obtain ⟨owner, path, -, hedge⟩ := hconnection
  cases type with
  | object object => exact ⟨object, rfl⟩
  | enum enum =>
    obtain ⟨parent, field, hname⟩ := h
    exact absurd (hedge.symm.trans (heq.symm.trans hname)) (Naming.edgeType_ne_enumType _ _ _ _)
  | input input =>
    obtain ⟨object, hname⟩ := h
    exact absurd (hedge.symm.trans (heq.symm.trans hname)) (Naming.edgeType_ne_inputType _ _ _)
  | connection other =>
    obtain ⟨_, _, hname, -⟩ := h
    exact absurd (hedge.symm.trans (heq.symm.trans hname))
      (Naming.edgeType_ne_connectionType _ _ _ _)

/-- Types of different names share an exported name only when one is an object with the name of the
other one's edge. -/
theorem Labelled.exportNames_cases (h : type.Labelled) (hother : other.Labelled)
    (hmem : name ∈ type.exportNames) (hmem' : name ∈ other.exportNames) :
    type.name = other.name ∨ ∃ connection object, name = connection.edge ∧ name = object.name ∧
      (type = .connection connection ∧ other = .object object ∨
        type = .object object ∧ other = .connection connection) := by
  rcases mem_exportNames_iff.1 hmem with rfl | ⟨connection, rfl, rfl⟩
  · rcases mem_exportNames_iff.1 hmem' with heq | ⟨connection, rfl, hedge⟩
    · exact .inl heq
    · obtain ⟨object, rfl⟩ := h.object_of_edge hother hedge
      exact .inr ⟨connection, object, hedge, rfl, .inr ⟨rfl, rfl⟩⟩
  · rcases mem_exportNames_iff.1 hmem' with hedge | ⟨connection', rfl, hedges⟩
    · obtain ⟨object, rfl⟩ := hother.object_of_edge h hedge.symm
      exact .inr ⟨connection, object, rfl, hedge, .inl ⟨rfl, rfl⟩⟩
    · obtain ⟨owner, path, hname, hedge⟩ := h
      obtain ⟨owner', path', hname', hedge'⟩ := hother
      rw [hedge, hedge'] at hedges
      exact .inl (hname.trans ((Naming.connectionType_eq_of_edgeType_eq hedges).trans hname'.symm))

theorem Labelled.nodup_exportNames (h : type.Labelled) : type.exportNames.Nodup := by
  cases type with
  | object | enum | input => exact List.nodup_singleton _
  | connection connection =>
    obtain ⟨owner, path, hname, hedge⟩ := h
    rw [exportNames, hname, hedge, List.nodup_cons, List.mem_singleton]
    exact ⟨(Naming.edgeType_ne_connectionType _ _ _ _).symm, List.nodup_singleton _⟩

end NamedType

/-! ### Names of types -/

namespace TypeGraph

variable {graph : TypeGraph}

theorem Labelled.type?_eq_some_iff (h : graph.Labelled) {name : String} {type : NamedType} :
    graph.type? name = some type ↔ type ∈ graph.namedTypes ∧ type.name = name := by
  constructor
  · intro hfind
    obtain ⟨shared, hget, rfl⟩ := Option.map_eq_some_iff.1 hfind
    exact ⟨mem_namedTypes_iff.2 ⟨name, hfind⟩, (h name shared hget).2⟩
  · rintro ⟨hmem, rfl⟩
    obtain ⟨key, hfind⟩ := mem_namedTypes_iff.1 hmem
    obtain ⟨shared, hget, rfl⟩ := Option.map_eq_some_iff.1 hfind
    obtain ⟨-, rfl⟩ := h key shared hget
    exact hfind

theorem Labelled.connection?_eq_some_iff (h : graph.Labelled) {name : String}
    {connection : ConnectionType} : graph.connection? name = some connection ↔
      .connection connection ∈ graph.namedTypes ∧ connection.name = name := by
  rw [TypeGraph.connection?_eq_some_iff, h.type?_eq_some_iff]
  rfl

theorem Labelled.labelled_of_mem (h : graph.Labelled) {type : NamedType}
    (htype : type ∈ graph.namedTypes) : type.Labelled := by
  obtain ⟨key, hfind⟩ := mem_namedTypes_iff.1 htype
  obtain ⟨shared, hget, rfl⟩ := Option.map_eq_some_iff.1 hfind
  exact (h key shared hget).1

/-- Types that are no models have different names. -/
theorem Labelled.nodup_names (h : graph.Labelled) :
    (graph.namedTypes.map NamedType.name).Nodup := by
  have hkeys : graph.namedTypes.map NamedType.name = graph.types.keys := by
    rw [namedTypes, List.map_map]
    exact OrderedMap.map_values_eq_keys fun name type hget => (h name type hget).2
  rw [hkeys]
  exact graph.types.nodup

/-- Types that are no models are exported under different names, unless an object has the name of an
edge. -/
theorem Labelled.nodup_flatMap_exportNames_iff (h : graph.Labelled) :
    (graph.namedTypes.flatMap NamedType.exportNames).Nodup ↔
      ∀ connection, .connection connection ∈ graph.namedTypes →
        ∀ object, .object object ∈ graph.namedTypes → object.name ≠ connection.edge := by
  constructor
  · intro hnodup connection hconnection object hobject heq
    have hsame := eq_of_mem_of_nodup_flatMap hnodup hconnection hobject
      (NamedType.mem_exportNames_iff.2 (.inr ⟨connection, rfl, rfl⟩))
      (heq ▸ NamedType.name_mem_exportNames (.object object))
    cases hsame
  · intro hedges
    refine List.nodup_flatMap.2
      ⟨fun type htype => (h.labelled_of_mem htype).nodup_exportNames, ?_⟩
    refine (List.pairwise_map.1 h.nodup_names).imp_of_mem fun {type other} htype hother hne => ?_
    intro name hmem hmem'
    rcases (h.labelled_of_mem htype).exportNames_cases (h.labelled_of_mem hother) hmem hmem' with
      heq | ⟨connection, object, hedge, hname, hkinds⟩
    · exact hne heq
    · rcases hkinds with ⟨rfl, rfl⟩ | ⟨rfl, rfl⟩
      · exact hedges connection htype object hother (hname.symm.trans hedge)
      · exact hedges connection hother object htype (hname.symm.trans hedge)

/-- Of the types of a graph, only models and objects can have names that every schema has. -/
theorem Labelled.disjoint_fixedNames_iff (h : graph.Labelled) :
    Schema.fixedNames.Disjoint
        (graph.modelNames ++ graph.namedTypes.flatMap NamedType.exportNames) ↔
      ∀ type ∈ graph.objects, type.name ∉ Schema.fixedNames := by
  constructor
  · intro hdisjoint type htype hfixed
    refine hdisjoint hfixed (List.mem_append.2 ?_)
    rcases mem_objects_iff.1 htype with hmodel | hobject
    · exact .inl (List.mem_map.2 ⟨type, hmodel, rfl⟩)
    · exact .inr (List.mem_flatMap.2 ⟨_, hobject, NamedType.name_mem_exportNames (.object type)⟩)
  · intro hobjects name hfixed hmem
    rcases List.mem_append.1 hmem with hmodel | hexport
    · obtain ⟨model, hroot, rfl⟩ := List.mem_map.1 hmodel
      exact hobjects model (mem_objects_iff.2 (.inl hroot)) hfixed
    · obtain ⟨type, htype, hname⟩ := List.mem_flatMap.1 hexport
      obtain ⟨object, rfl, rfl⟩ := (h.labelled_of_mem htype).object_of_fixed hname hfixed
      exact hobjects object (mem_objects_iff.2 (.inr htype)) hfixed

/-- Models have none of the names that other types are exported under when they have neither those
of the types nor those of edges. -/
theorem Labelled.disjoint_modelNames_iff (h : graph.Labelled) :
    graph.modelNames.Disjoint (graph.namedTypes.flatMap NamedType.exportNames) ↔
      (∀ name ∈ graph.modelNames, graph.type? name = none) ∧
        ∀ connection, .connection connection ∈ graph.namedTypes →
          connection.edge ∉ graph.modelNames := by
  constructor
  · intro hdisjoint
    refine ⟨fun name hname => ?_, fun connection hconnection hedge => ?_⟩
    · refine Option.eq_none_iff_forall_ne_some.2 fun type htype => ?_
      obtain ⟨hmem, rfl⟩ := h.type?_eq_some_iff.1 htype
      exact hdisjoint hname (List.mem_flatMap.2 ⟨type, hmem, type.name_mem_exportNames⟩)
    · refine hdisjoint hedge (List.mem_flatMap.2 ⟨_, hconnection, ?_⟩)
      exact NamedType.mem_exportNames_iff.2 (.inr ⟨connection, rfl, rfl⟩)
  · rintro ⟨htypes, hedges⟩ name hmodel hexport
    obtain ⟨type, htype, hname⟩ := List.mem_flatMap.1 hexport
    rcases NamedType.mem_exportNames_iff.1 hname with rfl | ⟨connection, rfl, rfl⟩
    · have hnone := htypes _ hmodel
      rw [h.type?_eq_some_iff.2 ⟨htype, rfl⟩] at hnone
      cases hnone
    · exact hedges connection htype hmodel

/-- The names of types are distinct just when models and object types take no names of others. -/
theorem Labelled.nodup_typeNames_iff (h : graph.Labelled) :
    (Schema.typeNames graph).Nodup ↔ graph.Clear := by
  have hperm : (Schema.typeNames graph).Perm (Schema.fixedNames ++
      (graph.modelNames ++ graph.namedTypes.flatMap NamedType.exportNames)) := by
    rw [Schema.typeNames, Schema.fixedNames, List.append_assoc, List.append_assoc,
      List.append_assoc, ← List.append_assoc graph.modelNames]
    exact List.perm_append_comm.append_left _
  rw [hperm.nodup_iff, List.nodup_append', List.nodup_append', h.nodup_flatMap_exportNames_iff,
    h.disjoint_fixedNames_iff, h.disjoint_modelNames_iff]
  constructor
  · rintro ⟨-, ⟨hmodels, hobjects, htypes, hedges⟩, hfixed⟩
    refine ⟨hmodels, hfixed, htypes, fun name connection hconnection type htype heq => ?_⟩
    obtain ⟨hmem, -⟩ := h.connection?_eq_some_iff.1 hconnection
    rcases mem_objects_iff.1 htype with hmodel | hobject
    · exact hedges connection hmem (List.mem_map.2 ⟨type, hmodel, heq⟩)
    · exact hobjects connection hmem type hobject heq
  · intro hclear
    have hedges : ∀ connection, .connection connection ∈ graph.namedTypes →
        ∀ type ∈ graph.objects, type.name ≠ connection.edge := fun connection hmem =>
      hclear.edges _ connection (h.connection?_eq_some_iff.2 ⟨hmem, rfl⟩)
    refine ⟨by decide, ⟨hclear.models, ?_, hclear.types, ?_⟩, hclear.fixed⟩
    · exact fun connection hmem object hobject =>
        hedges connection hmem object (mem_objects_iff.2 (.inr hobject))
    · intro connection hmem hedge
      obtain ⟨model, hmodel, heq⟩ := List.mem_map.1 hedge
      exact hedges connection hmem model (mem_objects_iff.2 (.inl hmodel)) heq

end TypeGraph

/-! ### Names of root fields -/

namespace Schema

variable {graph : TypeGraph}

theorem append_many_ne_append_byId (base other : String) : base ++ "Many" ≠ other ++ "ById" := by
  intro h
  have hlast := congrArg (fun name => name.toList.getLast?) h
  simp at hlast

/-- The root fields for many records have other names than those for one, so names are distinct just
when those of models are with their first letters in lower case. -/
theorem nodup_rootFieldNames_iff :
    (rootFieldNames graph).Nodup ↔ (graph.modelNames.map Text.lowerFirst).Nodup := by
  rw [rootFieldNames, List.nodup_flatMap, List.Nodup, List.pairwise_map]
  constructor
  · rintro ⟨-, hdisjoint⟩
    refine hdisjoint.imp fun {model other} hapart heq => ?_
    exact hapart (List.mem_cons_self ..) (heq ▸ List.mem_cons_self ..)
  · intro hdistinct
    refine ⟨fun model _ => ?_, hdistinct.imp fun {model other} hne name hmem hmem' => ?_⟩
    · refine List.nodup_cons.2 ⟨fun hmem => ?_, List.nodup_singleton _⟩
      exact append_many_ne_append_byId _ _ (List.mem_singleton.1 hmem)
    · rcases List.mem_pair.1 hmem with rfl | rfl
      · rcases List.mem_pair.1 hmem' with heq | heq
        · exact hne ((String.append_left_inj _).1 heq)
        · exact append_many_ne_append_byId _ _ heq
      · rcases List.mem_pair.1 hmem' with heq | heq
        · exact append_many_ne_append_byId _ _ heq.symm
        · exact hne ((String.append_left_inj _).1 heq)

/-! ### Registration -/

theorem repeated?_eq_none_iff {names : List String} : repeated? names = none ↔ names.Nodup := by
  induction names with
  | nil => exact ⟨fun _ => .nil, fun _ => rfl⟩
  | cons name rest ih =>
    rw [repeated?, List.nodup_cons, ← ih]
    by_cases hmem : name ∈ rest
    · simp [hmem]
    · simp [hmem]

variable {ω : Type} {registry : HookRegistry ω} {all : List SchemaType}

theorem name_of_objectType {type : ObjectType} {found : SchemaType}
    (h : objectType registry type = .ok found) : found.name = type.name := by
  obtain ⟨fields, -, rfl⟩ := objectType_eq_ok h
  rfl

theorem map_name_of_namedTypes {type : NamedType} {types : List SchemaType}
    (h : namedTypes graph registry type = .ok types) :
    types.map SchemaType.name = type.exportNames := by
  cases type with
  | object type =>
    obtain ⟨found, hfound, rfl⟩ := map_eq_ok_iff.1 h
    exact congrArg (fun name => [name]) (name_of_objectType hfound)
  | enum | input | connection =>
    cases h
    rfl

/-- Types and root fields are registered under the names of the graph, and only when those of root
fields are distinct. -/
theorem map_name_registered (h : registered graph registry = .ok all) :
    all.map SchemaType.name = typeNames graph ∧ (rootFieldNames graph).Nodup ∧
      ∃ root, .object root ∈ all ∧ root.name = query ∧
        root.fields.map SchemaField.name = rootFieldNames graph := by
  obtain ⟨models, named, hmodels, hnamed, hfields, rfl⟩ := registered_eq_ok h
  have hmodelNames : (models.map Prod.fst).map SchemaType.name = graph.modelNames := by
    rw [List.map_map]
    exact map_eq_map_of_forall₂ hmodels fun _ _ hparts =>
      name_of_objectType (modelParts_eq_ok hparts).1
  have hexported : named.flatten.map SchemaType.name =
      graph.namedTypes.flatMap NamedType.exportNames := by
    rw [List.map_flatten, List.flatMap]
    exact congrArg _ (map_eq_map_of_forall₂ hnamed fun _ _ => map_name_of_namedTypes)
  have hrootFields : (models.flatMap Prod.snd).map SchemaField.name = rootFieldNames graph := by
    rw [List.map_flatMap, rootFieldNames, TypeGraph.modelNames, List.flatMap_map, List.flatMap,
      List.flatMap]
    refine congrArg _ (map_eq_map_of_forall₂ hmodels fun _ _ hparts => ?_)
    rw [(modelParts_eq_ok hparts).2]
    rfl
  refine ⟨?_, repeated?_eq_none_iff.1 (hrootFields ▸ hfields), ⟨query, none, none, _⟩,
    List.mem_append_right _ (List.mem_singleton_self _), rfl, hrootFields⟩
  rw [List.map_append, List.map_append, List.map_append, hmodelNames, hexported]
  rfl

/-- A schema has all types that are registered for it just when they have different names. -/
theorem Exports.values_eq_iff {schema : Schema} (h : schema.Exports graph registry all) :
    schema.types.values = all ↔ (all.map SchemaType.name).Nodup := by
  have hpairs : (all.map fun type => (type.name, type)).map Prod.fst = all.map SchemaType.name := by
    rw [List.map_map]
    rfl
  constructor
  · intro hvalues
    have hkeys : schema.types.values.map SchemaType.name = schema.types.keys := by
      refine OrderedMap.map_values_eq_keys fun name type hget => ?_
      rw [h.types_eq] at hget
      obtain ⟨type, -, heq⟩ := List.mem_map.1 (OrderedMap.mem_of_get?_ofList hget)
      cases heq
      rfl
    rw [← hvalues, hkeys]
    exact schema.types.nodup
  · intro hnodup
    rw [h.types_eq, OrderedMap.values, OrderedMap.entries_ofList (hpairs ▸ hnodup), List.map_map]
    exact List.map_id _

end Schema

/-! ### Graphs that callers get -/

/-- Whatever callers did to caches that they share, the types of the graph that a call gets have
different names just when its models and objects take no names of others, and its root fields have
different names just when its models do with their first letters in lower case. All types and root
fields are registered under these names, and one of the types replaces another unless the graph is
clear. -/
theorem Run.distinct_names_of_synthesizeCached {start : Caches} (hstart : start.Empty)
    (events : List Caches.Event) {run : Run} {now : Nat} {models : List ModelDecl}
    {graph : Shared TypeGraph}
    (h : (run.synthesizeCached now models (start.after events)).1 = .ok graph) :
    ((Schema.typeNames graph.value).Nodup ↔ graph.value.Clear) ∧
    ((Schema.rootFieldNames graph.value).Nodup ↔
      (graph.value.modelNames.map Text.lowerFirst).Nodup) ∧
    ∀ {ω : Type} {registry : HookRegistry ω} {schema : Schema},
      Schema.ofGraph graph.value registry = .ok schema →
        ∃ all root, Schema.registered graph.value registry = .ok all ∧
          all.map SchemaType.name = Schema.typeNames graph.value ∧
          (schema.types.values = all ↔ graph.value.Clear) ∧
          .object root ∈ all ∧ root.name = Schema.query ∧
          root.fields.map SchemaField.name = Schema.rootFieldNames graph.value ∧
          (Schema.rootFieldNames graph.value).Nodup := by
  have hclear := (Run.labelled_of_synthesizeCached hstart events h).nodup_typeNames_iff
  refine ⟨hclear, Schema.nodup_rootFieldNames_iff, fun hschema => ?_⟩
  obtain ⟨all, hexports⟩ := Schema.exports_of_ofGraph hschema
  obtain ⟨hnames, hdistinct, root, hroot, hquery, hfields⟩ :=
    Schema.map_name_registered hexports.registered_eq
  refine ⟨all, root, hexports.registered_eq, hnames, ?_, hroot, hquery, hfields, hdistinct⟩
  rw [hexports.values_eq_iff, hnames, hclear]

/-- A forum and a user, which another caller has asked for before, export different names. -/
theorem Run.distinct_names_forum :
    let caches := (Caches.ofSettings 0 {}).after
      [.synthesize (Run.mk {} ⟨0⟩ 0) 0 [.forum], .expire 5]
    ∃ graph schema,
      ((Run.mk {} ⟨1⟩ 1).synthesizeCached 10 [.forum, .user] caches).1 = .ok graph ∧
        Schema.ofGraph graph.value ({} : HookRegistry Unit) = .ok schema ∧ graph.value.Clear ∧
        Schema.registered graph.value ({} : HookRegistry Unit) = .ok schema.types.values ∧
        graph.value.namedTypes.flatMap NamedType.exportNames = ["PostInput", "PostStateEnum",
          "Post", "forumThreadsAuthorsConnection", "forumThreadsAuthorsEdge"] := by
  intro caches
  let result := ((Run.mk {} ⟨1⟩ 1).synthesizeCached 10 [.forum, .user] caches).1
  obtain ⟨graph, hok, hcheck⟩ : ∃ graph, result = .ok graph ∧ decide (
      (Schema.typeNames graph.value).Nodup ∧
        graph.value.namedTypes.flatMap NamedType.exportNames = ["PostInput", "PostStateEnum",
          "Post", "forumThreadsAuthorsConnection", "forumThreadsAuthorsEdge"] ∧
        (Schema.ofGraph graph.value ({} : HookRegistry Unit)).isOk) = true :=
    exists_eq_ok_of_any (by decide +kernel)
  obtain ⟨hnodup, hexported, hschema⟩ := of_decide_eq_true hcheck
  obtain ⟨schema, hschema⟩ := exists_eq_ok hschema
  obtain ⟨hclear, -, hregistered⟩ := Run.distinct_names_of_synthesizeCached
    (Caches.empty_ofSettings 0 {}) [.synthesize (Run.mk {} ⟨0⟩ 0) 0 [.forum], .expire 5] hok
  obtain ⟨all, root, hall, -, hvalues, -⟩ := hregistered hschema
  rw [← hvalues.2 (hclear.1 hnodup)] at hall
  exact ⟨graph, schema, hok, hschema, hclear.1 hnodup, hall, hexported⟩

namespace ModelDecl

/-- A model with a shape whose type has the name of another model. -/
def profiledUser : ModelDecl where
  key := "users"
  name := "User"
  fields := [.nested "profile" [.scalar "bio" .string]]

/-- A model with the name of that type. -/
def userProfile : ModelDecl where
  key := "profiles"
  name := "UserProfile"
  fields := [.scalar "title" .string]

end ModelDecl

/-- Beside a shape whose type has its name, a model loses its own type: its root fields give the
type of the shape. Models that differ in the case of their first letters have no schema, for their
root fields have one name. -/
theorem Run.shared_names_userProfile :
    (∃ graph schema,
      ((Run.mk {} ⟨0⟩ 0).synthesizeCached 0 [.profiledUser, .userProfile] (.ofSettings 0 {})).1 =
          .ok graph ∧
        ¬ (Schema.typeNames graph.value).Nodup ∧
        (graph.value.model? "UserProfile").map ObjectType.fieldNames = some ["id", "title"] ∧
        Schema.ofGraph graph.value ({} : HookRegistry Unit) = .ok schema ∧
        (schema.object? "UserProfile").map (fun type =>
          (type.interface, type.fields.map SchemaField.name)) = some (none, ["bio"]) ∧
        (schema.root?.bind fun root => (root.field? "userProfileMany").map SchemaField.type) =
          some (.requiredList "UserProfile")) ∧
    ∃ graph,
      ((Run.mk {} ⟨0⟩ 0).synthesizeCached 0
          [.user, { ModelDecl.user with key := "members", name := "user" }] (.ofSettings 0 {})).1 =
          .ok graph ∧
        ¬ (Schema.rootFieldNames graph.value).Nodup ∧
        ∀ (registry : HookRegistry Unit) (schema : Schema),
          Schema.ofGraph graph.value registry ≠ .ok schema := by
  refine ⟨?_, ?_⟩
  · let result :=
      ((Run.mk {} ⟨0⟩ 0).synthesizeCached 0 [.profiledUser, .userProfile] (.ofSettings 0 {})).1
    obtain ⟨graph, hok, hcheck⟩ : ∃ graph, result = .ok graph ∧ decide (
        ¬ (Schema.typeNames graph.value).Nodup ∧
          (graph.value.model? "UserProfile").map ObjectType.fieldNames = some ["id", "title"] ∧
          (Schema.ofGraph graph.value ({} : HookRegistry Unit)).toOption.any fun schema => decide (
            (schema.object? "UserProfile").map (fun type =>
              (type.interface, type.fields.map SchemaField.name)) = some (none, ["bio"]) ∧
            (schema.root?.bind fun root => (root.field? "userProfileMany").map SchemaField.type) =
              some (.requiredList "UserProfile"))) = true :=
      exists_eq_ok_of_any (by decide +kernel)
    obtain ⟨hnames, hmodel, hschema⟩ := of_decide_eq_true hcheck
    obtain ⟨schema, hschema, hlost⟩ := exists_eq_ok_of_any hschema
    obtain ⟨hobject, hroot⟩ := of_decide_eq_true hlost
    exact ⟨graph, schema, hok, hnames, hmodel, hschema, hobject, hroot⟩
  · let result := ((Run.mk {} ⟨0⟩ 0).synthesizeCached 0
      [.user, { ModelDecl.user with key := "members", name := "user" }] (.ofSettings 0 {})).1
    obtain ⟨graph, hok, hnames⟩ : ∃ graph, result = .ok graph ∧
        decide (¬ (Schema.rootFieldNames graph.value).Nodup) = true :=
      exists_eq_ok_of_any (by decide +kernel)
    refine ⟨graph, hok, of_decide_eq_true hnames, fun registry schema hschema => ?_⟩
    obtain ⟨all, hexports⟩ := Schema.exports_of_ofGraph hschema
    obtain ⟨-, hdistinct, -⟩ := Schema.map_name_registered hexports.registered_eq
    exact of_decide_eq_true hnames hdistinct

end ModelGraph
