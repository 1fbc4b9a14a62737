import ModelGraph.Proofs.Cache.Expiry
import ModelGraph.Proofs.Cache.Filed
import ModelGraph.Proofs.Graph.Furnished

/-!
# Calls that find all types

A call that finds no types stores those of all its models. As long as nothing expires, the same call
finds all of them then, whoever makes it, and it succeeds again. Its graph has the same models, but
for their mark, and of the other types those that the models reach.

## Main definitions

- `CacheLayer.Shows` — what look-ups in a layer find at a time
- `Run.Replays` — types that were stored for a model, with the mark of a run

## Main statements

- `Run.reuseAll_of_shows` — what a call finds in the cache
- `Run.finish_replay` — the graph of models whose types were all found
- `TypeGraph.validate_of_agrees` — a graph is valid when it agrees with a valid one
- `Run.synthesizeCached_replay` — a second call reproduces the graph of the first
-/

namespace ModelGraph

/-! ### What a layer shows -/

namespace CacheLayer

variable {α : Type} {ttl now later : Nat} {shown : String → Option α}
  {layer : CacheLayer (AnyStore α)}

/-- What look-ups in a layer find at a time, where values last for `ttl`. -/
def Shows (ttl now : Nat) (shown : String → Option α) (layer : CacheLayer (AnyStore α)) : Prop :=
  ∃ store, layer.store = some (.ttl store) ∧ store.ttl = ttl ∧
    ∀ key, store.visible? now key = shown key

/-- A look-up does not change what others find. -/
theorem Shows.get? (h : layer.Shows ttl now shown) (httl : 0 < ttl) (key : String) :
    (layer.get? now key).1 = shown key ∧ (layer.get? now key).2.Shows ttl now shown := by
  obtain ⟨store, hstore, rfl, hshown⟩ := h
  rw [CacheLayer.get?, hstore]
  refine ⟨TtlStore.fst_refresh.trans (hshown key), _, rfl, TtlStore.ttl_refresh, fun other => ?_⟩
  change (store.refresh now key).2.visible? now other = _
  rw [TtlStore.visible?_refresh]
  split
  · next heq => rw [if_pos (by omega), hshown, heq]
  · exact hshown other

/-- A value that is written is found until it expires. -/
theorem Shows.set (h : layer.Shows ttl later shown) (hnow : now ≤ later)
    (hlater : later < now + ttl) (key : String) (value : α) :
    (layer.set now key value).Shows ttl later (Function.update shown key (some value)) := by
  obtain ⟨store, hstore, rfl, hshown⟩ := h
  rw [CacheLayer.set, hstore]
  refine ⟨_, rfl, TtlStore.ttl_sweep, fun other => ?_⟩
  rw [TtlStore.visible?_write hnow, Function.update_apply, if_pos hlater]
  simp only [eq_comm, hshown]

/-- Values that are written under different keys are all found. -/
theorem Shows.setAll {β : Type} (h : layer.Shows ttl later shown) (hnow : now ≤ later)
    (hlater : later < now + ttl) (key : β → String) (value : β → α) {entries : List β}
    (hkeys : (entries.map key).Nodup) :
    ∃ shown', (entries.foldl (fun layer entry => layer.set now (key entry) (value entry))
        layer).Shows ttl later shown' ∧
      ∀ entry ∈ entries, shown' (key entry) = some (value entry) := by
  induction entries using List.reverseRecOn with
  | nil => exact ⟨shown, h, fun _ hmem => absurd hmem List.not_mem_nil⟩
  | append_singleton init last ih =>
    rw [List.map_append, List.map_singleton] at hkeys
    obtain ⟨hinit, -, hlast⟩ := List.nodup_append.1 hkeys
    obtain ⟨shown', hshows, hfound⟩ := ih hinit
    rw [List.foldl_append]
    refine ⟨_, hshows.set hnow hlater (key last) (value last), fun entry hentry => ?_⟩
    rcases List.mem_append.1 hentry with hentry | hentry
    · have hne : key entry ≠ key last :=
        hlast _ (List.mem_map_of_mem hentry) _ (List.mem_singleton_self _)
      rw [Function.update_of_ne hne]
      exact hfound entry hentry
    · obtain rfl := List.mem_singleton.1 hentry
      exact Function.update_self ..

end CacheLayer

namespace Run

variable {run : Run} {models : List ModelDecl} {ttl now later : Nat}
  {shown : String → Option ModelTypes} {types : AnyLayer ModelTypes}

variable (run) in
/-- A call finds nothing where nothing is shown. -/
theorem reuseAll_of_misses (h : types.Shows ttl now shown) (httl : 0 < ttl) (index : Nat)
    (hmisses : ∀ model ∈ models, shown model.cacheIdentity = none) :
    ∃ missed, run.reuseAll now index models types =
      (models.map fun model => (model, none), missed) ∧ missed.Shows ttl now shown := by
  induction models generalizing index types with
  | nil => exact ⟨types, rfl, h⟩
  | cons model rest ih =>
    obtain ⟨hmiss, hrest⟩ := List.forall_mem_cons.1 hmisses
    obtain ⟨hget, hshows⟩ := h.get? httl model.cacheIdentity
    have hreuse : run.reuse now index model types =
        (none, (types.get? now model.cacheIdentity).2) := by
      rw [reuse, ← Prod.eta (types.get? now model.cacheIdentity), hget, hmiss]
    obtain ⟨missed, hothers, hmissed⟩ := ih hshows (index + 1) hrest
    refine ⟨missed, ?_, hmissed⟩
    rw [reuseAll, hreuse]
    dsimp only
    rw [hothers, List.map_cons]

variable (run) in
/-- Types that are those of another entry, with the mark of a run. -/
structure Takes (cached found : ModelTypes) : Prop where
  root : found.root.value = cached.root.value.withIdentity run.identity
  dependents : found.dependents = cached.dependents

variable (run) in
/-- A call finds what is shown, and gives it its mark. -/
theorem reuseAll_of_shows (h : types.Shows ttl now shown) (httl : 0 < ttl) (index : Nat)
    (hidentities : (models.map ModelDecl.cacheIdentity).Nodup)
    (hfound : ∀ model ∈ models, ∃ cached, shown model.cacheIdentity = some cached) :
    (run.reuseAll now index models types).1.map Prod.fst = models ∧
      ∀ model found, (model, found) ∈ (run.reuseAll now index models types).1 →
        ∃ cached types, shown model.cacheIdentity = some cached ∧ found = some types ∧
          run.Takes cached types := by
  induction models generalizing index types shown with
  | nil => exact ⟨rfl, fun _ _ hmem => absurd hmem List.not_mem_nil⟩
  | cons model rest ih =>
    obtain ⟨hnew, hrest⟩ := List.nodup_cons.1 hidentities
    obtain ⟨⟨cached, hcached⟩, hothers⟩ := List.forall_mem_cons.1 hfound
    obtain ⟨hget, hshows⟩ := h.get? httl model.cacheIdentity
    -- Giving one model's types the mark changes nothing for the others.
    obtain ⟨types', shown', taken, hreuse, htakes, hshows', hsame⟩ :
        ∃ types' shown' taken, run.reuse now index model types = (some taken, types') ∧
          run.Takes cached taken ∧ types'.Shows ttl now shown' ∧
          ∀ other ∈ rest, shown' other.cacheIdentity = shown other.cacheIdentity := by
      rw [reuse, ← Prod.eta (types.get? now model.cacheIdentity), hget, hcached]
      dsimp only
      split
      · next hmark =>
        have hidentity : cached.root.value.identity = some run.identity := of_decide_eq_true hmark
        refine ⟨_, _, cached, rfl, ⟨?_, rfl⟩, hshows, fun _ _ => rfl⟩
        rw [ObjectType.withIdentity, ← hidentity]
      · refine ⟨_, _, _, rfl, ⟨rfl, rfl⟩,
          hshows.set (Nat.le_refl now) (by omega) model.cacheIdentity _, fun other hother => ?_⟩
        refine Function.update_of_ne (fun heq => hnew ?_) ..
        exact heq ▸ List.mem_map_of_mem hother
    obtain ⟨hmodels, hentries⟩ := ih hshows' (index + 1) hrest fun other hother =>
      hsame other hother ▸ hothers other hother
    rw [reuseAll, hreuse]
    refine ⟨congrArg (model :: ·) hmodels, fun other found hmem => ?_⟩
    rcases List.mem_cons.1 hmem with heq | hmem
    · obtain ⟨rfl, rfl⟩ := Prod.mk.inj heq
      exact ⟨cached, taken, hcached, rfl, htakes⟩
    · have hother : other ∈ rest := hmodels ▸ List.mem_map_of_mem (f := Prod.fst) hmem
      rw [← hsame other hother]
      exact hentries other found hmem

end Run

/-! ### Graphs with the same models and part of the types -/

namespace TypeGraph

variable {graph other : TypeGraph}

/-- A field that passes in a graph does so in every graph with its models that has the same types
for the names which the field mentions. -/
theorem checkField_of_agrees {owner owner' : String} {field : OutputField}
    (h : graph.checkField owner field = .ok ())
    (hmodels : ∀ name, (graph.model? name).isSome → (other.model? name).isSome)
    (htypes : ∀ name ∈ field.mentions, other.type? name = graph.type? name) :
    other.checkField owner' field = .ok () := by
  rw [checkField_eq_ok_iff] at h ⊢
  obtain ⟨hslot, hdangling, hargs⟩ := h
  refine ⟨hslot, ?_, fun arg harg => ?_⟩
  · cases hcore : field.type.innermost with
    | object name =>
      have hname : name ∈ field.mentions := by simp [OutputField.mentions, hcore]
      rw [hcore, danglingType?_object, isSome_object?_iff] at hdangling
      rw [danglingType?_object, isSome_object?_iff, htypes name hname]
      exact hdangling.imp_left (hmodels name)
    | enum name =>
      have hname : name ∈ field.mentions := by simp [OutputField.mentions, hcore]
      have hsame : other.enum? name = graph.enum? name := by
        rw [enum?, enum?, htypes name hname]
      rw [hcore, danglingType?_enum] at hdangling
      rwa [danglingType?_enum, hsame]
    | connection name =>
      have hname : name ∈ field.mentions := by simp [OutputField.mentions, hcore]
      have hsame : other.connection? name = graph.connection? name := by
        rw [connection?, connection?, htypes name hname]
      rw [hcore, danglingType?_connection] at hdangling
      rw [danglingType?_connection, hsame]
      obtain ⟨type, htype, hnode⟩ := hdangling
      exact ⟨type, htype, hmodels type.node hnode⟩
    | scalar _ | list _ | nonNull _ | unresolved _ => rfl
  · have hname : arg.type.innermost ∈ field.mentions :=
      List.mem_append_right _ (List.mem_map_of_mem harg)
    have hinput := hargs arg harg
    simp only [isInputName, enum?, input?] at hinput ⊢
    rwa [htypes _ hname]

/-- A graph with the models of a valid one is valid when its object types are among those of that one
and both agree on what these mention. -/
theorem validate_of_agrees (h : graph.validate = .ok ())
    (hmodels : ∀ name, (graph.model? name).isSome → (other.model? name).isSome)
    (hobjects : ∀ type ∈ other.objects, ∃ old ∈ graph.objects, type.fields = old.fields ∧
      ∀ name ∈ type.mentions, other.type? name = graph.type? name) :
    other.validate = .ok () := by
  rw [validate_eq_ok_iff] at h ⊢
  intro type htype field hfield
  obtain ⟨old, hold, hfields, hagree⟩ := hobjects type htype
  refine checkField_of_agrees (h old hold field (hfields ▸ hfield)) hmodels fun name hname => ?_
  exact hagree name (List.mem_flatMap.2 ⟨field, hfield, hname⟩)

/-- A graph with the models of another, each under a given mark, and those of the other types that
the models reach. -/
structure Replays (identity : Identity) (graph again : TypeGraph) : Prop where
  mark : again.identity = identity
  models : again.models.map Shared.value =
    graph.models.map fun root => root.value.withIdentity identity
  types : ∀ name shared, again.types.get? name = some shared ↔
    graph.Reachable name ∧ graph.types.get? name = some shared

variable {identity : Identity} {again : TypeGraph}

theorem Replays.type?_eq (h : graph.Replays identity again) {name : String}
    (hname : graph.Reachable name) : again.type? name = graph.type? name := by
  refine congrArg (Option.map Shared.value) (Option.ext fun shared => ?_)
  rw [h.types]
  exact and_iff_right hname

theorem Replays.validate (h : graph.Replays identity again) (hvalid : graph.validate = .ok ()) :
    again.validate = .ok () := by
  refine validate_of_agrees hvalid (fun name hmodel => ?_) fun type htype => ?_
  · have hget := congrArg (OrderedMap.get? · name) h.models
    simp only [OrderedMap.get?_map] at hget
    rw [model?, hget, Option.isSome_map]
    rwa [model?, Option.isSome_map] at hmodel
  · rcases mem_objects_iff.1 htype with hroot | hobject
    · have hvalues : again.models.values.map Shared.value =
          graph.models.values.map fun root => root.value.withIdentity identity := by
        rw [← OrderedMap.values_map, h.models, OrderedMap.values_map]
      rw [hvalues] at hroot
      obtain ⟨root, hmem, rfl⟩ := List.mem_map.1 hroot
      exact ⟨root.value, mem_objects_iff.2 (.inl (List.mem_map_of_mem hmem)), rfl,
        fun name hname => h.type?_eq ⟨root, hmem, .start hname⟩⟩
    · obtain ⟨name, hfind⟩ := mem_namedTypes_iff.1 hobject
      obtain ⟨shared, hshared, hvalue⟩ := Option.map_eq_some_iff.1 hfind
      obtain ⟨⟨root, hroot, hreach⟩, hget⟩ := (h.types name shared).1 hshared
      have hfind : graph.type? name = some (.object type) := by
        rw [type?, hget, Option.map_some, hvalue]
      refine ⟨type, mem_objects_iff.2 (.inr (mem_namedTypes_iff.2 ⟨name, hfind⟩)), rfl,
        fun next hnext => ?_⟩
      exact h.type?_eq ⟨root, hroot, .step hreach hfind hnext⟩

end TypeGraph

/-! ### The graph of models whose types were all found -/

namespace Run

section TakesFrom

variable {run : Run} {models : List ModelDecl} {graph : TypeGraph}

variable (run graph) in
/-- The types of a model in a graph, with the mark of a run. -/
def TakesFrom (model : ModelDecl) (types : ModelTypes) : Prop :=
  ∃ root, graph.models.get? model.rootName = some root ∧
    types.root.value = root.value.withIdentity run.identity ∧
    types.dependents = dependentsOf root.value graph.types

variable (run graph) in
/-- A model that brings along its types in a graph. -/
def PlacedFrom (roots : OrderedMap String (Shared ObjectType))
    (reused : OrderedMap String ModelTypes) (model : ModelDecl) : Prop :=
  ∃ types, run.TakesFrom graph model types ∧
    placed? roots reused model = some (model.rootName, types.root) ∧
    lent roots reused model = types.dependents

variable {roots : OrderedMap String (Shared ObjectType)} {reused : OrderedMap String ModelTypes}
  (hplaced : ∀ model ∈ models, run.PlacedFrom graph roots reused model)
  (hkeys : graph.models.keys = models.map ModelDecl.rootName)

include hplaced hkeys

theorem models_placedFrom (hnames : (models.map ModelDecl.rootName).Nodup) :
    (OrderedMap.ofList (models.filterMap (placed? roots reused))).map Shared.value =
      graph.models.map fun root => root.value.withIdentity run.identity := by
  have hplacedKeys : (models.filterMap (placed? roots reused)).map Prod.fst =
      models.map ModelDecl.rootName := by
    rw [List.map_filterMap, ← List.filterMap_eq_map]
    refine List.filterMap_congr fun model hmodel => ?_
    obtain ⟨types, -, hplaced, -⟩ := hplaced model hmodel
    rw [hplaced]
    rfl
  have hnodup := hplacedKeys ▸ hnames
  have hagain : (OrderedMap.ofList (models.filterMap (placed? roots reused))).keys =
      models.map ModelDecl.rootName :=
    (congrArg (List.map Prod.fst) (OrderedMap.entries_ofList hnodup)).trans hplacedKeys
  refine OrderedMap.eq_of_keys_of_get? ?_ fun key hkey => ?_
  · rw [OrderedMap.keys_map, OrderedMap.keys_map, hagain, hkeys]
  · rw [OrderedMap.keys_map, hagain] at hkey
    obtain ⟨model, hmodel, rfl⟩ := List.mem_map.1 hkey
    obtain ⟨types, ⟨root, hroot, hvalue, -⟩, hplaced, -⟩ := hplaced model hmodel
    rw [OrderedMap.get?_map, OrderedMap.get?_map, hroot, (OrderedMap.get?_ofList_eq_some_iff
      hnodup).2 (List.mem_filterMap.2 ⟨model, hmodel, hplaced⟩)]
    exact congrArg some hvalue

/-- What is lent is what the models of the graph reach, each under its own name. -/
theorem mem_lent_placedFrom_iff
    (hown : ∀ name shared, graph.types.get? name = some shared → shared.value.name = name)
    {dependent : Shared NamedType} : dependent ∈ models.flatMap (lent roots reused) ↔
      graph.Reachable dependent.value.name ∧
        graph.types.get? dependent.value.name = some dependent := by
  rw [List.mem_flatMap]
  constructor
  · rintro ⟨model, hmodel, hmem⟩
    obtain ⟨types, ⟨root, hroot, -, hdependents⟩, -, hlent⟩ := hplaced model hmodel
    rw [hlent, hdependents] at hmem
    obtain ⟨name, hreach, hget⟩ := mem_dependentsOf_iff.1 hmem
    rw [hown name dependent hget]
    exact ⟨⟨root, OrderedMap.mem_values_iff.2 ⟨_, hroot⟩, hreach⟩, hget⟩
  · rintro ⟨⟨root, hroot, hreach⟩, hget⟩
    obtain ⟨key, hroot⟩ := OrderedMap.mem_values_iff.1 hroot
    obtain ⟨model, hmodel, rfl⟩ := List.mem_map.1 (hkeys ▸ OrderedMap.mem_keys_of_get? hroot)
    obtain ⟨types, ⟨root', hroot', -, hdependents⟩, -, hlent⟩ := hplaced model hmodel
    obtain rfl := Option.some.inj (hroot.symm.trans hroot')
    refine ⟨model, hmodel, ?_⟩
    rw [hlent, hdependents]
    exact mem_dependentsOf_iff.2 ⟨_, hreach, hget⟩

end TakesFrom

/-- Models whose types are all taken from a graph make up its models again, with the types that they
reach. -/
theorem replays_of_takesFrom (run : Run) {models : List ModelDecl} {graph : TypeGraph}
    {entries : List (ModelDecl × Option ModelTypes)}
    (hnames : (models.map ModelDecl.rootName).Nodup)
    (hkeys : graph.models.keys = models.map ModelDecl.rootName)
    (hown : ∀ name shared, graph.types.get? name = some shared → shared.value.name = name)
    (hmodels : entries.map Prod.fst = models)
    (hentries : ∀ model found, (model, found) ∈ entries → ∃ types, found = some types ∧
      run.TakesFrom graph model types) :
    ∃ again, run.assemble entries = .ok (again, []) ∧ graph.Replays run.identity again := by
  let roots := run.share .root ({} : Arena).roots
  let again := (run.finish {} models (reusedOf entries)).1
  have hdistinct : (entries.map fun entry => entry.1.name).Nodup := by
    rw [← hmodels, List.map_map] at hnames
    refine List.Nodup.of_map Naming.sanitize ?_
    rw [List.map_map]
    exact hnames
  have hplaced : ∀ model ∈ models, run.PlacedFrom graph roots (reusedOf entries) model := by
    intro model hmodel
    rw [← hmodels] at hmodel
    obtain ⟨⟨model, found⟩, hmem, rfl⟩ := List.mem_map.1 hmodel
    obtain ⟨types, rfl, htypes⟩ := hentries model found hmem
    have hget := get?_reusedOf hdistinct hmem
    refine ⟨types, htypes, ?_, ?_⟩
    · rw [placed?, hget]
      rfl
    · rw [lent, hget]
      rfl
  have hassemble : run.assemble entries = .ok (again, []) := by
    have hfresh : entries.filter (fun entry => entry.2.isNone) = [] := by
      refine List.filter_eq_nil_iff.2 fun entry hentry => ?_
      obtain ⟨types, hsome, -⟩ := hentries entry.1 entry.2 hentry
      simp [hsome]
    rw [assemble, hfresh, hmodels]
    rfl
  have hfinish := congrArg Prod.fst (run.finish_eq hnames {} (reusedOf entries))
  refine ⟨again, hassemble, rfl, ?_, fun name shared => ?_⟩
  · rw [show again.models = _ from congrArg TypeGraph.models hfinish]
    exact models_placedFrom hplaced hkeys hnames
  · have hlent := @mem_lent_placedFrom_iff run models graph roots (reusedOf entries) hplaced hkeys
      hown
    have hget : again.types.get? name = (models.flatMap (lent roots (reusedOf entries))).find?
        fun dependent => dependent.value.name = name :=
      (congrArg (fun graph => graph.types.get? name) hfinish).trans (get?_lend ..)
    have hof : ∀ {other}, (models.flatMap (lent roots (reusedOf entries))).find?
        (fun dependent => dependent.value.name = name) = some other →
        graph.Reachable name ∧ graph.types.get? name = some other := by
      intro other hfind
      have hname : other.value.name = name := by simpa using List.find?_some hfind
      exact hname ▸ hlent.1 (List.mem_of_find?_eq_some hfind)
    rw [hget]
    refine ⟨hof, ?_⟩
    rintro ⟨hreach, hshared⟩
    have hname := hown name shared hshared
    obtain ⟨other, hfind⟩ := Option.isSome_iff_exists.1 (List.find?_isSome
      (p := fun dependent : Shared NamedType => dependent.value.name = name) |>.2
        ⟨shared, hlent.2 (hname.symm ▸ ⟨hreach, hshared⟩), decide_eq_true hname⟩)
    rw [hfind, ← hshared, (hof hfind).2]

/-! ### Replaying a call -/

/-- A call without a cache of whole graphs builds its graph. -/
theorem synthesizeCached_of_disabled (run : Run) (now : Nat) (models : List ModelDecl)
    {caches : Caches} (h : caches.schemas.store = none) :
    run.synthesizeCached now models caches =
      ((run.build now models caches.types).1.map fun graph => ⟨⟨run.number, .graph⟩, graph⟩,
        { caches with types := (run.build now models caches.types).2 }) := by
  have hdisabled : caches.schemas.isEnabled = false := by
    rw [CacheLayer.isEnabled, h]
    rfl
  rw [synthesizeCached, CacheLayer.getOrBuild, hdisabled]
  rfl

theorem schemas_of_disabled (run : Run) (now : Nat) (models : List ModelDecl) {caches : Caches}
    (h : caches.schemas.store = none) :
    (run.synthesizeCached now models caches).2.schemas = caches.schemas := by
  rw [synthesizeCached_of_disabled run now models h]

variable {run : Run} {models : List ModelDecl} {graph : TypeGraph} {now later ttl : Nat}
  {types stored : AnyLayer ModelTypes}

/-- A build that finds no types leaves them all for later. -/
theorem shows_of_build {shown : String → Option ModelTypes} (hshows : types.Shows ttl now shown)
    (hmisses : ∀ model ∈ models, shown model.cacheIdentity = none)
    (hnames : (models.map ModelDecl.rootName).Nodup)
    (hidentities : (models.map ModelDecl.cacheIdentity).Nodup) (hnow : now ≤ later)
    (hlater : later < now + ttl) (h : run.build now models types = (.ok graph, stored)) :
    checkKeys [] models = .ok () ∧ graph.validate = .ok () ∧
      graph.models.keys = models.map ModelDecl.rootName ∧
      (∀ name shared, graph.types.get? name = some shared → shared.value.name = name) ∧
      ∃ shown', stored.Shows ttl later shown' ∧ ∀ model ∈ models, ∃ root,
        graph.models.get? model.rootName = some root ∧
          shown' model.cacheIdentity =
            some ⟨model.name, root, dependentsOf root.value graph.types⟩ := by
  obtain ⟨missed, hreuse, store, hstore, rfl, -⟩ :=
    reuseAll_of_misses run hshows (by omega) 0 hmisses
  obtain ⟨hchecked, -, rfl, hvalid, rfl⟩ := build_of_misses hreuse h
  refine ⟨hchecked, hvalid, ?_, ?_, ?_⟩
  · rw [keys_models_graphOf, ← map_rootName_registered, values_registered hnames]
  · intro name shared hget
    rw [types_graphOf, get?_share] at hget
    obtain ⟨type, htype, rfl⟩ := Option.map_eq_some_iff.1 hget
    exact name_of_namedTypes htype
  · have hfreshKeys : ((run.fresh models).map (typesKey models)).Nodup := by
      rw [map_typesKey_fresh, values_registered hnames,
        List.map_congr_left fun model hmodel => filingKey_eq hnames hmodel]
      exact hidentities
    obtain ⟨shown', hshows', hfound⟩ := CacheLayer.Shows.setAll ⟨store, hstore, rfl, fun _ => rfl⟩
      hnow hlater (typesKey models) (fun entry => entry) hfreshKeys
    refine ⟨shown', hshows', fun model hmodel => ?_⟩
    obtain ⟨-, -, -, root, hroot, -⟩ :=
      run.exists_rootFor (get?_registered ((values_registered hnames).symm ▸ hmodel))
    have hmodels : (run.graphOf models (run.layOut models).settled).models.get? model.rootName =
        some ⟨⟨run.number, .root model.rootName⟩, root⟩ := by
      rw [get?_models_graphOf run models _ (List.mem_map_of_mem hmodel), get?_share, hroot]
      rfl
    have htypes := run.typesOf?_graphOf models (run.layOut models).settled hmodel
    rw [hroot, Option.map_some] at htypes
    refine ⟨_, hmodels, ?_⟩
    rw [types_graphOf, ← hfound _ (mem_fresh hnames hmodel htypes), typesKey_eq hmodel rfl,
      filingKey_eq hnames hmodel]

/-- When a call has found no types for its models, then another one for the same models that finds
what the first has stored succeeds too, be it of another caller and with other settings. Its graph
has the same models in the same order with this caller's mark, and of the other types those that the
models reach. -/
theorem synthesizeCached_replay {first second rest : Caches} {graph : Shared TypeGraph}
    {store : TtlStore ModelTypes} (hstore : first.types.store = some (.ttl store))
    (hcold : ∀ model ∈ models, store.visible? now model.cacheIdentity = none)
    (hnames : (models.map ModelDecl.rootName).Nodup)
    (hidentities : (models.map ModelDecl.cacheIdentity).Nodup)
    (hfirst : first.schemas.store = none) (hsecond : second.schemas.store = none)
    (h : run.synthesizeCached now models first = (.ok graph, rest))
    (hshared : second.types = rest.types) (hnow : now ≤ later) (hlater : later < now + store.ttl)
    (other : Run) :
    ∃ again, (other.synthesizeCached later models second).1 = .ok again ∧
      graph.value.Replays other.identity again.value := by
  rw [synthesizeCached_of_disabled run now models hfirst] at h
  obtain ⟨hok, rfl⟩ := Prod.mk.inj h
  obtain ⟨value, hvalue, rfl⟩ := map_eq_ok_iff.1 hok
  obtain ⟨hchecked, hvalid, hkeys, hown, shown, hstored, hfound⟩ := shows_of_build
    ⟨store, hstore, rfl, fun _ => rfl⟩ hcold hnames hidentities hnow hlater
    (Prod.ext hvalue rfl : run.build now models first.types = (.ok value, _))
  have hshows : second.types.Shows store.ttl later shown := by
    rw [hshared]
    exact hstored
  obtain ⟨hmodels, hentries⟩ := reuseAll_of_shows other hshows (by omega) 0 hidentities
    fun model hmodel => by
      obtain ⟨_, -, hcached⟩ := hfound model hmodel
      exact ⟨_, hcached⟩
  obtain ⟨again, hassemble, hreplays⟩ := replays_of_takesFrom other hnames hkeys hown
    hmodels fun model found hmem => by
      obtain ⟨cached, types, hcached, rfl, htakes⟩ := hentries model found hmem
      obtain ⟨root, hroot, hstored⟩ := hfound model (hmodels ▸ List.mem_map_of_mem hmem)
      obtain rfl := Option.some.inj (hstored.symm.trans hcached)
      exact ⟨types, rfl, root, hroot, htakes.root, htakes.dependents⟩
  refine ⟨⟨⟨other.number, .graph⟩, again⟩, ?_, hreplays⟩
  rw [synthesizeCached_of_disabled other later models hsecond, build, hchecked]
  dsimp only
  rw [hassemble]
  dsimp only
  rw [hreplays.validate hvalid]
  rfl

/-- The caches of a caller that does not cache whole graphs. -/
def typesOnly (start : Nat) : Caches :=
  { Caches.ofSettings start {} with schemas := .disabled }

/-- Another caller that asks for an author and a city within an hour finds the types of both. -/
theorem synthesizeCached_replay_author :
    ∃ graph rest again,
      (Run.mk {} ⟨0⟩ 0).synthesizeCached 0 [.author, .city] (typesOnly 0) = (.ok graph, rest) ∧
        ((Run.mk {} ⟨1⟩ 1).synthesizeCached 3599999 [.author, .city] rest).1 = .ok again ∧
        graph.value.Replays ⟨1⟩ again.value := by
  have hdisabled : (typesOnly 0).schemas.store = none := rfl
  obtain ⟨graph, hok⟩ : ∃ graph,
      ((Run.mk {} ⟨0⟩ 0).synthesizeCached 0 [.author, .city] (typesOnly 0)).1 = .ok graph :=
    exists_eq_ok (by decide +kernel)
  have hschemas := schemas_of_disabled (Run.mk {} ⟨0⟩ 0) 0 [.author, .city] hdisabled
  generalize hresult : (Run.mk {} ⟨0⟩ 0).synthesizeCached 0 [.author, .city] (typesOnly 0) = result
    at hok hschemas
  obtain ⟨first, rest⟩ := result
  obtain rfl : first = Except.ok graph := hok
  obtain ⟨again, hagain, hreplays⟩ := @synthesizeCached_replay (Run.mk {} ⟨0⟩ 0) [.author, .city]
    0 3599999 (typesOnly 0) rest rest graph (.new 0 3600000) rfl (fun _ _ => rfl)
    (by decide +kernel) (by decide +kernel) hdisabled
    ((congrArg CacheLayer.store hschemas).trans hdisabled) hresult rfl (by decide) (by decide)
    (Run.mk {} ⟨1⟩ 1)
  exact ⟨graph, rest, again, rfl, hagain, hreplays⟩

end Run

end ModelGraph
