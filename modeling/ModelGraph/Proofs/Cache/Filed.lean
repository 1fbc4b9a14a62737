import ModelGraph.Proofs.Cache.Transparent
import ModelGraph.Proofs.Graph.Drawn
import ModelGraph.Proofs.Graph.Independent

/-!
# What a first call leaves in the caches

A call that starts with empty caches builds all of its models, and only their keys are known to differ.
Of two models with one output name, the later one takes the place of the earlier one, which has no root
then. New types are stored under the cache identity of the first model of their model's name, and of
two types under one key the later ones are kept. So every model is registered, and stored under its
own cache identity, just when all output names and all cache identities differ.

A root is always made of the fields that its model declares. The types below it are the model's own as
long as no other model makes a type that this one mentions; when all names of the run are distinct,
they are made for fields that the model declares, or below the shape of an embedded model which this
one embeds too.

## Main definitions

- `Run.registered` — the models whose roots are kept, by output name
- `Run.filed` — the models whose types are stored, by cache key
- `Run.RootFor` — a root that is made of the fields which a model declares

## Main statements

- `Run.exists_rootFor` — every registered model of a run has its root
- `Run.map_fresh` — a run builds types for its registered models
- `Run.filed_iff_nodup` — when every model is stored under its own cache identity
- `Run.synthesizeCached_filed` — what a first call leaves in the caches
-/

namespace ModelGraph

/-- The types of a model in a graph: its root, and the types that this reaches. -/
def TypeGraph.typesOf? (graph : TypeGraph) (model : ModelDecl) : Option ModelTypes :=
  (graph.models.get? model.rootName).map fun root =>
    ⟨model.name, root, dependentsOf root.value graph.types⟩

namespace Run

variable (run : Run)

/-! ### Roots -/

/-- A root that is made of the fields which a model declares: the identity field and then, in order,
its visible fields, but for those whose shapes keep no field. -/
structure RootFor (model : ModelDecl) (kept : KeptModel) (root : ObjectType) : Prop where
  owner : kept.owner = model.rootName
  shell : root =
    { name := model.rootName, description := model.description, fields := root.fields,
      identity := some run.identity, hooks := model.hooks }
  fields : root.fields.map OutputField.outline =
    OrderedMap.insert ∅ Identity.field
        (OutputField.ofIdentity (Arena.identitySource run.settings model)).outline
      ++ .ofList (KeptField.outlines kept.fields)
  declared : (kept.fields.map KeptField.head).Sublist
    ((FieldDecl.visibleDecls run.settings model.ownFields).map FieldDecl.head)
  complete : ∀ decl ∈ FieldDecl.visibleDecls run.settings model.ownFields,
    decl.head ∈ kept.fields.map KeptField.head ∨ ∃ seen,
      ((KeptField.keepShape run.settings model.rootName decl.head decl.shape).run seen).1 = none

variable {run}

theorem rootFor_rootOf (model : ModelDecl) (arena : Arena) :
    let kept := ((model.keep run.settings).run arena.seen).1
    run.RootFor model kept (Arena.rootOf run.settings run.identity model
      ((KeptField.buildAll kept.owner "" kept.fields ∅).run arena).1) where
  owner := rfl
  shell := rfl
  fields := by
    obtain ⟨-, houtlines⟩ := KeptField.writes_all model.rootName ""
      ((model.keep run.settings).run arena.seen).1.fields ∅ arena
    change OrderedMap.map OutputField.outline (OrderedMap.insert ∅ Identity.field
      (OutputField.ofIdentity (Arena.identitySource run.settings model)) ++ _) = _
    rw [OrderedMap.map_append, OrderedMap.map_insert]
    exact congrArg (_ ++ ·) houtlines
  declared := KeptField.heads_keepAll model.rootName model.ownFields arena.seen
  complete _ hdecl := KeptField.kept_or_hollow model.rootName hdecl arena.seen

/-- Resolving changes no outline. -/
theorem RootFor.settled {model : ModelDecl} {kept : KeptModel} {root old : ObjectType}
    (h : run.RootFor model kept old) (hshell : root = { old with fields := root.fields })
    (houtline : root.outline = old.outline) : run.RootFor model kept root where
  owner := h.owner
  shell := by
    rw [h.shell] at hshell
    exact hshell
  fields := (congrArg ObjectOutline.fields houtline).trans h.fields
  declared := h.declared
  complete := h.complete

/-! ### Registered models -/

/-- The models whose roots are kept, by output name: of two with one name the later, in the place of
the earlier. -/
def registered (models : List ModelDecl) : OrderedMap String ModelDecl :=
  .ofList (models.map fun model => (model.rootName, model))

variable {models : List ModelDecl} {model : ModelDecl}

theorem registered_concat (models : List ModelDecl) (model : ModelDecl) :
    registered (models ++ [model]) = (registered models).insert model.rootName model := by
  rw [registered, List.map_append, List.map_singleton, OrderedMap.ofList_append_singleton]
  rfl

theorem mem_of_registered {name : String} (h : (registered models).get? name = some model) :
    model ∈ models ∧ model.rootName = name := by
  obtain ⟨other, hother, heq⟩ := List.mem_map.1 (OrderedMap.mem_of_get?_ofList h)
  obtain ⟨rfl, rfl⟩ := Prod.mk.inj heq
  exact ⟨hother, rfl⟩

theorem get?_registered (h : model ∈ (registered models).values) :
    (registered models).get? model.rootName = some model := by
  obtain ⟨name, hget⟩ := OrderedMap.mem_values_iff.1 h
  rw [(mem_of_registered hget).2]
  exact hget

/-- When all output names differ, all models are registered. -/
theorem values_registered (hnames : (models.map ModelDecl.rootName).Nodup) :
    (registered models).values = models := by
  have hentries : (registered models).entries = models.map fun model => (model.rootName, model) :=
    OrderedMap.entries_ofList (by rwa [List.map_map])
  rw [OrderedMap.values, hentries, List.map_map]
  exact List.map_id' models

theorem map_rootName_registered (models : List ModelDecl) :
    (registered models).values.map ModelDecl.rootName = (registered models).keys :=
  OrderedMap.map_values_eq_keys fun _ _ hget => (mem_of_registered hget).2

/-- What is remembered after models are laid out is what is remembered after their fields are kept. -/
theorem seen_layOut (models : List ModelDecl) :
    (run.layOut models).seen = ((models.mapM (ModelDecl.keep run.settings)).run {}).2 := by
  induction models using List.reverseRecOn with
  | nil => rfl
  | append_singleton init model ih =>
    rw [layOut_concat, Arena.run_addModel_kept, ih, List.mapM_append, List.mapM_cons, List.mapM_nil]
    rfl

theorem kept_concat (models : List ModelDecl) (model : ModelDecl) :
    run.kept (models ++ [model]) =
      run.kept models ++ [((model.keep run.settings).run (run.layOut models).seen).1] := by
  rw [kept, List.mapM_append, List.mapM_cons, List.mapM_nil, seen_layOut]
  rfl

/-- The first phase leaves one root for each registered model. -/
theorem roots_layOut (models : List ModelDecl) :
    (run.layOut models).roots.keys = (registered models).keys ∧
      ∀ name model, (registered models).get? name = some model → ∃ kept ∈ run.kept models, ∃ root,
        (run.layOut models).roots.get? name = some root ∧ run.RootFor model kept root := by
  induction models using List.reverseRecOn with
  | nil => exact ⟨rfl, fun _ _ hget => by cases hget⟩
  | append_singleton init last ih =>
    obtain ⟨hkeys, hroots⟩ := ih
    rw [layOut_concat, kept_concat, registered_concat, Arena.run_addModel_kept]
    refine ⟨?_, fun name model hget => ?_⟩
    · exact OrderedMap.keys_insert_congr hkeys
    · rw [OrderedMap.get?_insert] at hget
      split at hget
      · next hname =>
        obtain rfl := Option.some.inj hget
        refine ⟨_, List.mem_append_right _ (List.mem_singleton_self _), _, ?_,
          rootFor_rootOf last (run.layOut init)⟩
        exact hname ▸ OrderedMap.get?_insert_self
      · next hname =>
        obtain ⟨kept, hkept, root, hroot, hfor⟩ := hroots name model hget
        exact ⟨kept, List.mem_append_left _ hkept, root,
          (OrderedMap.get?_insert_of_ne hname).trans hroot, hfor⟩

variable (run) in
/-- Every registered model has its root once all slots are resolved. -/
theorem exists_rootFor {name : String} (h : (registered models).get? name = some model) :
    (run.layOut models).settled.rootModels.get? name = some model.name ∧
      ∃ kept ∈ run.kept models, ∃ root,
        (run.layOut models).settled.roots.get? name = some root ∧ run.RootFor model kept root := by
  obtain ⟨kept, hkept, old, hold, hfor⟩ := (run.roots_layOut models).2 name model h
  obtain ⟨root, hroot⟩ : ∃ root, (run.layOut models).settled.roots.get? name = some root := by
    rw [← OrderedMap.mem_keys_iff, (Arena.settled_frame (run.layOut models)).1]
    exact OrderedMap.mem_keys_of_get? hold
  have hholder : (run.layOut models).settled.holder? (.root name) = some root := hroot
  obtain ⟨old', hold', hshell⟩ := Arena.exists_holder?_settleAll hholder
  obtain rfl : old = old' := Option.some.inj (hold.symm.trans hold')
  obtain ⟨old', hold', houtline⟩ := Arena.exists_outline_settleAll hholder
  obtain rfl : old = old' := Option.some.inj (hold.symm.trans hold')
  refine ⟨?_, kept, hkept, root, hroot, hfor.settled hshell houtline⟩
  -- The names of models and the models themselves are written at the same time.
  rw [registered, OrderedMap.get?_ofList_map, Option.map_id'] at h
  rw [Arena.settled, Arena.rootModels_settleAll, rootModels_layOut, OrderedMap.get?_ofList_map, h]
  rfl

/-! ### Graphs of fresh models -/

theorem keys_share {α : Type} (place : String → Place) (map : OrderedMap String α) :
    (run.share place map).keys = map.keys :=
  OrderedMap.keys_mapWithKey (f := fun name value => Shared.mk ⟨run.number, place name⟩ value)

section GraphOf

variable (run models) (arena : Arena)

theorem types_graphOf :
    (run.graphOf models arena).types = run.share .type arena.namedTypes :=
  (foldl_place_fresh models _ _ _).2

theorem get?_models_graphOf {name : String} (h : name ∈ models.map ModelDecl.rootName) :
    (run.graphOf models arena).models.get? name = (run.share .root arena.roots).get? name := by
  refine ((foldl_place_fresh models (run.share .root arena.roots) ∅
    (run.share .type arena.namedTypes)).1 name).trans ?_
  rw [if_pos (show name ∈ models.map fun model => Naming.sanitize model.name from h),
    OrderedMap.get?_empty, Option.or_none]

/-- The types of a model in a graph of fresh models. -/
theorem typesOf?_graphOf {model : ModelDecl} (h : model ∈ models) :
    (run.graphOf models arena).typesOf? model =
      (arena.roots.get? model.rootName).map fun root =>
        ⟨model.name, ⟨⟨run.number, .root model.rootName⟩, root⟩,
          dependentsOf root (run.share .type arena.namedTypes)⟩ := by
  rw [TypeGraph.typesOf?, get?_models_graphOf run models arena (List.mem_map_of_mem h), get?_share,
    types_graphOf, Option.map_map]
  rfl

/-- Each model goes under its output name, unless that is taken. -/
theorem keys_foldl_place {roots placed : OrderedMap String (Shared ObjectType)}
    {types : OrderedMap String (Shared NamedType)} {names : OrderedMap String ModelDecl}
    (hroots : ∀ model ∈ models, model.rootName ∈ roots.keys ∨ model.rootName ∈ placed.keys)
    (hkeys : placed.keys = names.keys) :
    (models.foldl (place ∅) (roots, placed, types)).2.1.keys =
      (names.insertMany (models.map fun model => (model.rootName, model))).keys := by
  induction models generalizing roots placed names with
  | nil => exact hkeys
  | cons model rest ih =>
    obtain ⟨hmodel, hrest⟩ := List.forall_mem_cons.1 hroots
    rw [List.foldl_cons, place, List.map_cons, OrderedMap.insertMany_cons]
    simp only [OrderedMap.get?_empty]
    cases hroot : roots.get? (Naming.sanitize model.name) with
    | none =>
      have hplaced : model.rootName ∈ placed.keys := hmodel.resolve_left fun hmem =>
        OrderedMap.get?_eq_none_iff.1 hroot hmem
      refine ih hrest ?_
      rw [OrderedMap.keys_insert_of_mem (hkeys ▸ hplaced), hkeys]
    | some root =>
      refine ih (fun other hother => ?_) (OrderedMap.keys_insert_congr hkeys)
      -- What is taken out of the roots is what was placed.
      change _ ∈ (roots.erase model.rootName).keys ∨ _ ∈ (placed.insert model.rootName root).keys
      by_cases hname : model.rootName = other.rootName
      · exact .inr (hname ▸ OrderedMap.mem_keys_of_get? OrderedMap.get?_insert_self)
      · simp only [OrderedMap.mem_keys_iff, OrderedMap.get?_erase, if_neg hname,
          OrderedMap.get?_insert_of_ne hname]
        simpa only [OrderedMap.mem_keys_iff] using hrest other hother

/-- A graph has the registered models, in order. -/
theorem keys_models_graphOf : (run.graphOf models (run.layOut models).settled).models.keys =
    (registered models).keys := by
  refine keys_foldl_place models (fun model hmodel => .inl ?_) rfl
  rw [keys_share, (Arena.settled_frame (run.layOut models)).1, (run.roots_layOut models).1]
  exact OrderedMap.mem_keys_ofList.2 (List.mem_map.2 ⟨_, List.mem_map_of_mem hmodel, rfl⟩)

end GraphOf

/-! ### Freshly built types -/

/-- The key under which the types of a model are stored: the cache identity of the first model of its
name. -/
def filingKey (models : List ModelDecl) (model : ModelDecl) : String :=
  ((models.find? fun other => other.name = model.name).getD model).cacheIdentity

/-- The models whose types are stored, by cache key: of two under one key the later. -/
def filed (models : List ModelDecl) : OrderedMap String ModelDecl :=
  .ofList ((registered models).values.map fun model => (filingKey models model, model))

section Fresh

variable (run models)

/-- The types that a run without types to reuse builds for its models. -/
def fresh : List ModelTypes :=
  let arena := (run.layOut models).settled
  freshTypes arena (run.share .root arena.roots) (run.share .type arena.namedTypes)

variable {run models}

theorem typesKey_eq (h : model ∈ models) {types : ModelTypes} (hkey : types.key = model.name) :
    typesKey models types = filingKey models model := by
  obtain ⟨first, hfirst⟩ : ∃ first, (models.find? fun other => other.name = model.name) = some first :=
    Option.isSome_iff_exists.1 (List.find?_isSome.2 ⟨model, h, decide_eq_true rfl⟩)
  rw [typesKey, filingKey, hkey, hfirst]
  rfl

/-- When all output names differ, types are stored under the cache identity of their model. -/
theorem filingKey_eq (hnames : (models.map ModelDecl.rootName).Nodup) (h : model ∈ models) :
    filingKey models model = model.cacheIdentity := by
  rw [filingKey, find?_key_of_nodup (nodup_names hnames) h]
  rfl

variable (run models) in
/-- A run builds types for its registered models, and stores them under their keys. -/
theorem map_fresh :
    ((run.fresh models).map fun entry => (typesKey models entry, some entry)) =
      (registered models).values.map fun model =>
        (filingKey models model,
          (run.graphOf models (run.layOut models).settled).typesOf? model) := by
  have hkeys : (run.share .root (run.layOut models).settled.roots).keys =
      (registered models).keys := by
    rw [keys_share, (Arena.settled_frame (run.layOut models)).1, (run.roots_layOut models).1]
  rw [fresh, freshTypes, List.map_map, OrderedMap.values, List.map_map]
  refine OrderedMap.map_toList_congr hkeys fun name root model hroot hmodel => ?_
  obtain ⟨hmem, rfl⟩ := mem_of_registered hmodel
  have hname := congrArg (Option.getD · model.rootName) (run.exists_rootFor hmodel).1
  refine Prod.ext (typesKey_eq hmem hname) ?_
  change some (ModelTypes.mk _ root _) = TypeGraph.typesOf? _ model
  rw [TypeGraph.typesOf?, get?_models_graphOf run models _ (List.mem_map_of_mem hmem), hroot,
    types_graphOf, hname]
  rfl

/-- Under a key, the last types are found that were built for it. -/
theorem get?_fresh (key : String) :
    (OrderedMap.ofList ((run.fresh models).map fun entry =>
        (typesKey models entry, entry))).get? key =
      ((filed models).get? key).bind
        (run.graphOf models (run.layOut models).settled).typesOf? := by
  have hfind := congrArg (fun entries => (entries.reverse.find? fun entry => entry.1 = key).map
    Prod.snd) (run.map_fresh models)
  simp only [← List.map_reverse, List.find?_map, Option.map_map] at hfind
  rw [OrderedMap.get?_ofList_map, filed, OrderedMap.get?_ofList_map, Option.map_id']
  change ((run.fresh models).reverse.find? fun entry => typesKey models entry = key).map some =
    ((registered models).values.reverse.find? fun model => filingKey models model = key).map
      (run.graphOf models (run.layOut models).settled).typesOf? at hfind
  cases hentry : (run.fresh models).reverse.find? fun entry => typesKey models entry = key with
  | none =>
    rw [hentry, Option.map_none, eq_comm, Option.map_eq_none_iff] at hfind
    rw [hfind]
    rfl
  | some entry =>
    rw [hentry, Option.map_some, eq_comm, Option.map_eq_some_iff] at hfind
    obtain ⟨model, hmodel, htypes⟩ := hfind
    rw [hmodel]
    exact htypes.symm

theorem map_typesKey_fresh : (run.fresh models).map (typesKey models) =
    (registered models).values.map (filingKey models) := by
  have hfst := congrArg (List.map Prod.fst) (run.map_fresh models)
  rwa [List.map_map, List.map_map] at hfst

variable (hnames : (models.map ModelDecl.rootName).Nodup)

include hnames

theorem mem_fresh (hmodel : model ∈ models) {types : ModelTypes}
    (htypes : (run.graphOf models (run.layOut models).settled).typesOf? model = some types) :
    types ∈ run.fresh models := by
  have hmem : (filingKey models model, some types) ∈
      (run.fresh models).map fun entry => (typesKey models entry, some entry) := by
    rw [map_fresh, values_registered hnames, ← htypes]
    exact List.mem_map_of_mem hmodel
  obtain ⟨entry, hentry, heq⟩ := List.mem_map.1 hmem
  exact Option.some.inj (congrArg Prod.snd heq) ▸ hentry

end Fresh

/-- Every model is registered, and its types are stored under its own cache identity, just when the
output names of the models differ and their cache identities do. -/
theorem filed_iff_nodup : ((registered models).values = models ∧
      ∀ model ∈ models, (filed models).get? model.cacheIdentity = some model) ↔
    (models.map ModelDecl.rootName).Nodup ∧ (models.map ModelDecl.cacheIdentity).Nodup := by
  constructor
  · rintro ⟨hvalues, hfiled⟩
    have hnames : (models.map ModelDecl.rootName).Nodup := by
      have hkeys := map_rootName_registered models
      rw [hvalues] at hkeys
      rw [hkeys]
      exact (registered models).nodup
    refine ⟨hnames, List.Nodup.map_on (fun model hmodel other hother heq => ?_)
      (List.Nodup.of_map _ hnames)⟩
    exact Option.some.inj ((hfiled model hmodel).symm.trans (heq ▸ hfiled other hother))
  · rintro ⟨hnames, hidentities⟩
    have hkeys : (models.map fun model => (filingKey models model, model)).map Prod.fst =
        models.map ModelDecl.cacheIdentity := by
      rw [List.map_map]
      exact List.map_congr_left fun model hmodel => filingKey_eq hnames hmodel
    refine ⟨values_registered hnames, fun model hmodel => ?_⟩
    rw [filed, values_registered hnames, OrderedMap.get?_ofList_eq_some_iff (hkeys ▸ hidentities),
      ← filingKey_eq hnames hmodel]
    exact List.mem_map_of_mem hmodel

/-! ### Empty caches -/

section Empty

variable (run models) (now start seconds : Nat)

/-- An empty cache has no types to reuse. -/
theorem reuseAll_empty (index : Nat) :
    run.reuseAll now index models (Caches.layerFor start seconds) =
      (models.map fun model => (model, none), Caches.layerFor start seconds) :=
  run.reuseAll_of_none (fun _ => rfl) index models

variable {run models now start seconds}

/-- A build that finds no types to reuse stores those of all models. -/
theorem build_of_misses {types missed stored : AnyLayer ModelTypes} {graph : TypeGraph}
    (hmisses : run.reuseAll now 0 models types = (models.map fun model => (model, none), missed))
    (h : run.build now models types = (.ok graph, stored)) :
    checkKeys [] models = .ok () ∧
      (∀ slot ∈ (run.layOut models).pending, slot.target ∈ models.map ModelDecl.name) ∧
      graph = run.graphOf models (run.layOut models).settled ∧ graph.validate = .ok () ∧
      stored = (run.fresh models).foldl
        (fun types entry => types.set now (typesKey models entry) entry) missed := by
  rw [build, hmisses] at h
  cases hkeys : checkKeys [] models with
  | error e =>
    rw [hkeys] at h
    cases h
  | ok =>
    rw [hkeys] at h
    dsimp only at h
    cases hassemble : run.assemble (models.map fun model => (model, none)) with
    | error e =>
      rw [hassemble] at h
      cases h
    | ok built =>
      rw [hassemble] at h
      obtain ⟨hvalid, rfl⟩ := Prod.mk.inj h
      obtain ⟨_, hvalidate, rfl⟩ := map_eq_ok_iff.1 hvalid
      rw [assemble_none] at hassemble
      obtain ⟨arena, hresolve, hassemble⟩ := bind_eq_ok_iff.1 hassemble
      obtain ⟨-, -, hfinish⟩ := bind_eq_ok_iff.1 hassemble
      obtain ⟨hlisted, rfl⟩ := Arena.resolve_eq_ok_iff.1 hresolve
      obtain rfl := Except.ok.inj hfinish
      exact ⟨rfl, hlisted, rfl, hvalidate, rfl⟩

/-- A build that starts with an empty cache stores the types of all models. -/
theorem build_empty {graph : TypeGraph} {types : AnyLayer ModelTypes}
    (h : run.build now models (Caches.layerFor start seconds) = (.ok graph, types)) :
    (∀ slot ∈ (run.layOut models).pending, slot.target ∈ models.map ModelDecl.name) ∧
      graph = run.graphOf models (run.layOut models).settled ∧
      types = (run.fresh models).foldl
        (fun types entry => types.set now (typesKey models entry) entry)
        (Caches.layerFor start seconds) := by
  obtain ⟨-, hlisted, hgraph, -, htypes⟩ :=
    build_of_misses (reuseAll_empty run models now start seconds 0) h
  exact ⟨hlisted, hgraph, htypes⟩

/-- A call with empty caches builds its graph, and keeps the types cache of the build. -/
theorem build_of_synthesizeCached {settings : CacheSettings} (henabled : settings.enabled = true)
    {graph : Shared TypeGraph} {caches : Caches}
    (h : run.synthesizeCached now models (.ofSettings start settings) = (.ok graph, caches)) :
    run.build now models (Caches.layerFor start settings.typeTtl) =
      (.ok graph.value, caches.types) := by
  let build (types : AnyLayer ModelTypes) :
      Except SynthError (Shared TypeGraph) × AnyLayer ModelTypes :=
    ((run.build now models types).1.map fun graph => ⟨⟨run.number, .graph⟩, graph⟩,
      (run.build now models types).2)
  obtain ⟨hresult, hworld⟩ := CacheLayer.getOrBuild_new start (settings.schemaTtl * 1000) now
    (schemaKey models) (fun graph => decide (graph.value.identity = run.identity)) build
    (Caches.layerFor start settings.typeTtl)
  rw [Caches.ofSettings, if_pos henabled] at h
  have hok : (build (Caches.layerFor start settings.typeTtl)).1 = .ok graph :=
    hresult.symm.trans (congrArg Prod.fst h)
  have htypes : (build (Caches.layerFor start settings.typeTtl)).2 = caches.types :=
    hworld.symm.trans (congrArg (fun result => result.2.types) h)
  obtain ⟨value, hvalue, rfl⟩ := map_eq_ok_iff.1 hok
  exact Prod.ext hvalue htypes

end Empty

/-- The types below the root of a model are its own when no other model makes a type that it mentions. -/
theorem Unmixed.reusable_typesOf? (h : run.Unmixed models) (hmodel : model ∈ models)
    {types : ModelTypes}
    (htypes : (run.graphOf models (run.layOut models).settled).typesOf? model = some types) :
    run.Reusable model types := by
  rw [typesOf?_graphOf run models _ hmodel] at htypes
  obtain ⟨object, hobject, rfl⟩ := Option.map_eq_some_iff.1 htypes
  exact reusable_of_agrees
    ((h.get?_roots_eq (List.Sublist.refl models) hmodel).symm.trans hobject)
    (fun _ hreach => h.get?_eq (List.Sublist.refl models) hmodel hreach) model.name

/-- The root that a legible run leaves for a model has the declared types. -/
theorem RootFor.rootOf {kept : KeptModel} {root : ObjectType} (hlegible : run.Legible models)
    (hkept : kept ∈ run.kept models)
    (hroot : (run.layOut models).settled.roots.get? model.rootName = some root)
    (hfor : run.RootFor model kept root) : RootOf KeptField.settledType kept root := by
  obtain ⟨other, hother, howner, hrootOf⟩ := hlegible.rootOf hroot
  have howners : ((run.kept models).map KeptModel.owner).Nodup :=
    (owners_kept run models).symm ▸ hlegible.owners
  obtain rfl := List.inj_on_of_nodup_map howners hother hkept (howner.trans hfor.owner.symm)
  exact hrootOf

/-- A run leaves the types of every registered model in its graph. -/
theorem exists_typesOf?
    (hlisted : ∀ slot ∈ (run.layOut models).pending, slot.target ∈ models.map ModelDecl.name)
    (hmodel : model ∈ (registered models).values) :
    ∃ types, (run.graphOf models (run.layOut models).settled).typesOf? model = some types ∧
      ∃ kept ∈ run.kept models, run.RootFor model kept types.root.value ∧
        (run.Legible models → RootOf KeptField.settledType kept types.root.value) ∧
        (run.Distinct models → ∀ dependent ∈ types.dependents,
          ∃ placed, run.Draws models kept placed ∧ placed.Makes dependent.value) ∧
        (run.Unmixed models → run.Reusable model types) := by
  have hget := get?_registered hmodel
  have hmem := (mem_of_registered hget).1
  obtain ⟨-, kept, hkept, root, hroot, hfor⟩ := run.exists_rootFor hget
  have hfound := run.typesOf?_graphOf models (run.layOut models).settled hmem
  rw [hroot, Option.map_some] at hfound
  refine ⟨_, hfound, kept, hkept, hfor, fun hlegible => hfor.rootOf hlegible hkept hroot,
    fun hdistinct dependent hdependent => ?_, fun hunmixed => hunmixed.reusable_typesOf? hmem hfound⟩
  obtain ⟨name, hreach, hget⟩ := mem_dependentsOf_iff.1 hdependent
  rw [typeOf?_share] at hreach
  rw [get?_share] at hget
  obtain ⟨type, hfound, rfl⟩ := Option.map_eq_some_iff.1 hget
  exact hdistinct.made_of_reaches hkept hlisted (hfor.owner ▸ hroot) hreach hfound

/-- A call with empty caches registers the last model of each output name, with a root that is made of
the fields which this model declares. Until they expire, the types cache holds under each key the types
of the last registered model that goes by it, and it holds nothing else; so every model has its own
root, stored under its own cache identity, just when output names and cache identities differ. The
types below a root are those that the model has on its own when the models are unmixed, and each of
them is made for a field on which the model draws when names are distinct. -/
theorem synthesizeCached_filed {settings : CacheSettings} (henabled : settings.enabled = true)
    {now start : Nat} {graph : Shared TypeGraph} {caches : Caches}
    (h : run.synthesizeCached now models (.ofSettings start settings) = (.ok graph, caches)) :
    graph.value.models.keys = (registered models).keys ∧
      (∀ model ∈ (registered models).values, ∃ types, graph.value.typesOf? model = some types ∧
        ∃ kept ∈ run.kept models, run.RootFor model kept types.root.value ∧
          (run.Legible models → RootOf KeptField.settledType kept types.root.value) ∧
          (run.Distinct models → ∀ dependent ∈ types.dependents,
            ∃ placed, run.Draws models kept placed ∧ placed.Makes dependent.value) ∧
          (run.Unmixed models → run.Reusable model types)) ∧
      (∀ key later, now ≤ later → later < now + settings.typeTtl * 1000 →
        (caches.types.get? later key).1 =
          ((filed models).get? key).bind graph.value.typesOf?) ∧
      (∀ key ∉ (filed models).keys, ∀ later, (caches.types.get? later key).1 = none) ∧
      (((registered models).values = models ∧
          ∀ model ∈ models, (filed models).get? model.cacheIdentity = some model) ↔
        (models.map ModelDecl.rootName).Nodup ∧ (models.map ModelDecl.cacheIdentity).Nodup) := by
  obtain ⟨hlisted, hgraph, htypes⟩ := build_empty (build_of_synthesizeCached henabled h)
  refine ⟨?_, fun model hmodel => ?_, fun key later hnow hlater => ?_, fun key hkey later => ?_,
    filed_iff_nodup⟩
  · rw [hgraph]
    exact run.keys_models_graphOf models
  · rw [hgraph]
    exact exists_typesOf? hlisted hmodel
  · rw [htypes, hgraph, ← run.get?_fresh]
    exact CacheLayer.get?_foldl_set (typesKey models) (fun entry => entry) (run.fresh models) hnow
      hlater key
  · -- Only the keys of registered models were ever written.
    have hholds : caches.types.Holds fun key _ => key ∈ (filed models).keys := by
      rw [htypes]
      refine (CacheLayer.holds_new _ _).foldl_set now (typesKey models) id fun entry hentry => ?_
      have hmem := List.mem_map_of_mem (f := typesKey models) hentry
      rw [map_typesKey_fresh] at hmem
      rw [filed, OrderedMap.mem_keys_ofList, List.map_map]
      exact hmem
    exact Option.eq_none_iff_forall_ne_some.2 fun value hvalue =>
      hkey ((hholds.get? later key).1 value hvalue)

theorem distinct_person_shop : (Run.mk {} ⟨0⟩ 0).Distinct [.person, .shop] where
  legible := legible_of_wellNamed (by decide +kernel) (by decide +kernel)
  names := by decide +kernel
  builtIn := by decide +kernel

/-- A shop that is built together with a person is kept for an hour. -/
theorem synthesizeCached_filed_shop : ∃ graph caches,
    (Run.mk {} ⟨0⟩ 0).synthesizeCached 0 [.person, .shop] (.ofSettings 0 {}) = (.ok graph, caches) ∧
      graph.value.models.keys = ["person", "shop"] ∧ ∃ types,
        graph.value.typesOf? .shop = some types ∧ (caches.types.get? 3599999 "shops").1 = some types ∧
        (∃ kept, (Run.mk {} ⟨0⟩ 0).RootFor .shop kept types.root.value ∧
          ∀ dependent ∈ types.dependents, ∃ placed,
            (Run.mk {} ⟨0⟩ 0).Draws [.person, .shop] kept placed ∧ placed.Makes dependent.value) ∧
        ∀ later, (caches.types.get? later "people@2").1 = none := by
  let result := (Run.mk {} ⟨0⟩ 0).synthesizeCached 0 [.person, .shop] (.ofSettings 0 {})
  obtain ⟨graph, hok⟩ : ∃ graph, result.1 = .ok graph := exists_eq_ok (by decide +kernel)
  have hresult : result = (.ok graph, result.2) := Prod.ext hok rfl
  obtain ⟨hkeys, hmodels, hfiled, hothers, hiff⟩ := synthesizeCached_filed rfl hresult
  obtain ⟨hregistered, hidentity⟩ := hiff.2 ⟨by decide +kernel, by decide +kernel⟩
  have hlisted : ModelDecl.shop ∈ [.person, .shop] := by simp
  obtain ⟨types, htypes, kept, -, hfor, -, hdrawn, -⟩ := hmodels .shop (hregistered ▸ hlisted)
  refine ⟨graph, result.2, hresult, hkeys.trans (by decide +kernel), types, htypes, ?_,
    ⟨kept, hfor, hdrawn distinct_person_shop⟩, hothers "people@2" (by decide +kernel)⟩
  have hget := hfiled "shops" 3599999 (by decide) (by decide)
  rw [show "shops" = ModelDecl.shop.cacheIdentity from rfl, hidentity .shop hlisted] at hget
  exact hget.trans htypes

end Run

/-! ### Models that are lost or mixed up -/

/-- The models of a graph, with the names of their fields. -/
def TypeGraph.listing (graph : TypeGraph) : List (String × List String) :=
  graph.models.toList.map fun (name, root) => (name, root.value.fields.keys)

/-- The names of object types that are stored with a model, with the names of their fields. -/
def ModelTypes.listing (types : ModelTypes) : List (String × List String) :=
  types.dependents.filterMap fun dependent =>
    dependent.value.object?.map fun object => (object.name, object.fields.keys)

namespace ModelDecl

/-- Another model with the name of a station. -/
def junction : ModelDecl where
  key := "junctions"
  name := "station"
  fields := [.scalar "tracks" .number]

/-- A model whose key reads like another model's key and version. -/
def ticket : ModelDecl where
  key := "stations@2"
  name := "ticket"
  fields := [.scalar "price" .number]

end ModelDecl

/-- Whether a caller that starts with empty caches gets a graph with models as listed, and leaves
caches of a kind. -/
def Run.Leaves (models : List ModelDecl) (listing : List (String × List String))
    (left : Caches → Prop) : Prop :=
  ∃ graph caches,
    (Run.mk {} ⟨0⟩ 0).synthesizeCached 0 models (.ofSettings 0 {}) = (.ok graph, caches) ∧
      graph.value.listing = listing ∧ left caches

theorem Run.leaves_of_map_eq {models : List ModelDecl} {listing : List (String × List String)}
    {left : Caches → Prop}
    (h : let result := (Run.mk {} ⟨0⟩ 0).synthesizeCached 0 models (.ofSettings 0 {})
      result.1.toOption.map (fun graph => graph.value.listing) = some listing ∧ left result.2) :
    Run.Leaves models listing left := by
  obtain ⟨hanswer, hleft⟩ := h
  obtain ⟨graph, hgraph, hlisting⟩ := Option.map_eq_some_iff.1 hanswer
  exact ⟨graph, _, Prod.ext (toOption_eq_some_iff.1 hgraph) rfl, hlisting, hleft⟩

/-- A first call that succeeds can lose models and mix them up. Of a station and a junction of the
same name, the station is lost, the junction is stored as the station, and a later call that asks
for the station alone is answered with the junction. Of two models with one cache identity, only the
later is stored. And a model can be stored with what another has put in the place of its types: a nested
type of the same name, or the shared shape of an embedded model. -/
theorem Run.synthesizeCached_misfiled :
    Run.Leaves [.station, .junction] [("station", ["id", "tracks"])] (fun caches =>
      ((caches.types.get? 1 ModelDecl.station.cacheIdentity).1.map fun types =>
          types.root.value.fields.keys) = some ["id", "tracks"] ∧
        (caches.types.get? 1 ModelDecl.junction.cacheIdentity).1.isNone ∧
        (((Run.mk {} ⟨0⟩ 1).synthesizeCached 1 [.station] caches).1.toOption.map fun later =>
          later.value.listing) = some [("station", ["id", "tracks"])] ∧
        ((Run.mk {} ⟨0⟩ 1).synthesize [.station]).toOption.map TypeGraph.listing =
          some [("station", ["id", "label"])]) ∧
    Run.Leaves [{ ModelDecl.station with version := "2" }, .ticket]
      [("station", ["id", "label"]), ("ticket", ["id", "price"])] (fun caches =>
        (caches.types.get? 1
          (ModelDecl.cacheIdentity { ModelDecl.station with version := "2" })).1.map ModelTypes.key =
            some "ticket") ∧
    Run.Leaves [.bus, .busStop] [("bus", ["id", "stopSign"]), ("busStop", ["id", "sign"])]
      (fun caches =>
        (caches.types.get? 1 ModelDecl.bus.cacheIdentity).1.map ModelTypes.listing =
          some [("busStopSign", ["text"])]) ∧
    Run.Leaves [.person, .shop] [("person", ["id", "home"]), ("shop", ["id", "site"])]
      fun caches =>
        (caches.types.get? 1 ModelDecl.shop.cacheIdentity).1.map ModelTypes.listing =
          some [("Place", ["street"])] := by
  refine ⟨leaves_of_map_eq ?_, leaves_of_map_eq ?_, leaves_of_map_eq ?_, leaves_of_map_eq ?_⟩ <;>
    decide +kernel

end ModelGraph
