import ModelGraph.Proofs.Cache.Transparent

/-!
# Whose mark a graph carries

Callers with different marks may share caches. Whoever filled them, a graph carries the mark of the
caller that gets it, and so does every registered model in it. No other type ever carries a mark.
Cached types with another mark are given the caller's, and nothing else about them changes.

## Main definitions

- `Caches.Event`, `Caches.after` — what happens to shared caches, and the caches it leaves
- `TypeGraph.OwnedBy` — a graph whose models carry a mark, and whose other types carry none
- `ModelTypes.Rebinds` — types that were given another mark
- `Run.Makes`, `Run.FoundIn`, `Run.Brings` — where roots and types of a call come from

## Main statements

- `Run.owned_of_assemble` — a run puts its mark on its roots, and on nothing else
- `Run.found_reuseAll` — what a run reuses was stored, or was given its mark
- `Run.owned_of_synthesizeCached` — whose mark the graphs of callers with shared caches carry
-/

namespace ModelGraph

/-! ### Maps whose values have a property -/

namespace OrderedMap

variable {κ α : Type} [DecidableEq κ] {P : α → Prop} {m : OrderedMap κ α}

/-- Whether all values of a map have a property. -/
def All (P : α → Prop) (m : OrderedMap κ α) : Prop :=
  ∀ key value, m.get? key = some value → P value

theorem all_empty : (∅ : OrderedMap κ α).All P := by
  intro key value hget
  cases hget

theorem All.insert (h : m.All P) {key : κ} {value : α} (hvalue : P value) :
    (m.insert key value).All P := by
  intro other found hget
  rw [get?_insert] at hget
  split at hget
  · exact Option.some.inj hget ▸ hvalue
  · exact h other found hget

theorem All.erase (h : m.All P) (key : κ) : (m.erase key).All P := by
  intro other found hget
  rw [get?_erase] at hget
  split at hget
  · cases hget
  · exact h other found hget

end OrderedMap

/-! ### Marks -/

/-- A type without a mark. -/
def NamedType.Unmarked : NamedType → Prop
  | .object type => type.identity = none
  | .enum _ | .input _ | .connection _ => True

namespace TypeGraph

/-- A graph that carries a mark, as all of its models do and none of its other types. -/
structure OwnedBy (identity : Identity) (graph : TypeGraph) : Prop where
  mark : graph.identity = identity
  models : graph.models.All fun root => root.value.identity = some identity
  types : graph.types.All fun type => type.value.Unmarked

end TypeGraph

namespace ModelTypes

/-- Types whose dependents carry no mark. -/
def Unmarked (types : ModelTypes) : Prop :=
  ∀ dependent ∈ types.dependents, dependent.value.Unmarked

/-- Types that were given a mark in place of another one: nothing else about them has changed. -/
structure Rebinds (identity : Identity) (cached types : ModelTypes) : Prop where
  foreign : cached.root.value.identity ≠ some identity
  key : types.key = cached.key
  root : types.root.value = { cached.root.value with identity := some identity }
  dependents : types.dependents = cached.dependents

end ModelTypes

namespace Arena

/-- An arena whose roots carry a mark, and whose other types carry none. -/
structure Marked (identity : Identity) (arena : Arena) : Prop where
  roots : arena.roots.All fun root => root.identity = some identity
  objects : arena.objects.All fun object => object.identity = none

variable {identity : Identity}

theorem Marked.empty : Marked identity {} :=
  ⟨OrderedMap.all_empty, OrderedMap.all_empty⟩

/-- No step of laying out fields marks a type. -/
theorem inherited_marked : Inherited fun computation =>
    ∀ arena, arena.Marked identity → (computation.run arena).2.Marked identity where
  pure _ _ h := h
  bind hfirst hnext arena h := by
    rw [run_bind]
    exact hnext _ _ (hfirst arena h)
  scalarType parent field kind values arena h := by
    rw [run_scalarType]
    split
    · exact h
    · exact ⟨h.roots, h.objects⟩
  addObject name embedded fields arena h := by
    rw [run_addObject]
    split
    · cases embedded <;> exact ⟨h.roots, h.objects⟩
    · exact ⟨h.roots, h.objects.insert rfl⟩
  addSlot _ _ h := ⟨h.roots, h.objects⟩
  argumentsOf type arena h := by
    rw [run_argumentsOf]
    split
    · exact h
    · exact ⟨h.roots, h.objects⟩
  meetEmbedded model arena h := by
    rw [run_meetEmbedded]
    split
    · exact h
    · exact ⟨h.roots, h.objects⟩

theorem Marked.addModel {arena : Arena} (h : arena.Marked identity) (settings : SynthSettings)
    (model : ModelDecl) : ((addModel settings identity model).run arena).2.Marked identity := by
  have hdeclared : ((declared settings model).run arena).2.Marked identity :=
    inherited_marked.fields settings _ _ _ _ _ arena h
  rw [run_addModel]
  exact ⟨h.roots.insert rfl, hdeclared.objects⟩

/-- Resolving slots leaves all marks alone. -/
theorem Marked.settled {arena : Arena} (h : arena.Marked identity) :
    arena.settled.Marked identity := by
  have hholder : ∀ {holder type}, arena.settled.holder? holder = some type →
      ∃ old, arena.holder? holder = some old ∧ type.identity = old.identity := by
    intro holder type htype
    obtain ⟨old, hold, hshell⟩ := exists_holder?_settleAll htype
    exact ⟨old, hold, by rw [hshell]⟩
  refine ⟨fun name root hget => ?_, fun name object hget => ?_⟩
  · obtain ⟨old, hold, hmark⟩ := hholder (show arena.settled.holder? (.root name) = _ from hget)
    exact hmark.trans (h.roots name old hold)
  · obtain ⟨old, hold, hmark⟩ := hholder (show arena.settled.holder? (.object name) = _ from hget)
    exact hmark.trans (h.objects name old hold)

/-- The named types of a marked arena are not marked. -/
theorem Marked.namedTypes {arena : Arena} (h : arena.Marked identity) :
    arena.namedTypes.All NamedType.Unmarked := by
  intro name type hget
  cases type with
  | object type => exact h.objects name type (get?_objects_of_namedTypes hget)
  | enum | input | connection => trivial

end Arena

namespace Run

variable (run : Run)

/-- The first phase of a run marks its roots. -/
theorem marked_layOut (models : List ModelDecl) : (run.layOut models).Marked run.identity :=
  run.layOut_induct models (P := fun _ arena => arena.Marked run.identity) .empty
    fun _ _ model _ h => h.addModel run.settings model

/-! ### Placing models -/

theorem all_share {α : Type} {P : α → Prop} {map : OrderedMap String α} (h : map.All P)
    (place : String → Place) : (run.share place map).All fun shared =>
      P shared.value ∧ ∃ name, shared.origin = ⟨run.number, place name⟩ := by
  intro name shared hget
  rw [get?_share] at hget
  obtain ⟨value, hvalue, rfl⟩ := Option.map_eq_some_iff.1 hget
  exact ⟨h name value hvalue, name, rfl⟩

section Place

variable {P : Shared ObjectType → Prop} {Q : String → Shared NamedType → Prop}

theorem all_lend {types : OrderedMap String (Shared NamedType)}
    (h : ∀ name type, types.get? name = some type → Q name type)
    {dependents : List (Shared NamedType)}
    (hdependents : ∀ dependent ∈ dependents, Q dependent.value.name dependent) :
    ∀ name type, (lend types dependents).get? name = some type → Q name type := by
  intro name type hget
  rw [get?_lend] at hget
  rcases Option.or_eq_some_iff.1 hget with hget | ⟨-, hfind⟩
  · exact h name type hget
  · obtain rfl : type.value.name = name := by simpa using List.find?_some hfind
    exact hdependents type (List.mem_of_find?_eq_some hfind)

/-- What holds of the roots and types that models bring along holds of those in their graph. -/
theorem all_foldl_place {reused : OrderedMap String ModelTypes}
    (hreused : reused.All fun types =>
      P types.root ∧ ∀ dependent ∈ types.dependents, Q dependent.value.name dependent)
    (models : List ModelDecl) {roots placed : OrderedMap String (Shared ObjectType)}
    {types : OrderedMap String (Shared NamedType)} (hroots : roots.All P) (hplaced : placed.All P)
    (htypes : ∀ name type, types.get? name = some type → Q name type) :
    (models.foldl (place reused) (roots, placed, types)).2.1.All P ∧
      ∀ name type, (models.foldl (place reused) (roots, placed, types)).2.2.get? name = some type →
        Q name type := by
  induction models generalizing roots placed types with
  | nil => exact ⟨hplaced, htypes⟩
  | cons model rest ih =>
    rw [List.foldl_cons, place]
    cases hroot : roots.get? (Naming.sanitize model.name) with
    | some root => exact ih (hroots.erase _) (hplaced.insert (hroots _ _ hroot)) htypes
    | none =>
      cases hcached : reused.get? model.name with
      | none => exact ih hroots hplaced htypes
      | some cached =>
        obtain ⟨hroot, hdependents⟩ := hreused _ _ hcached
        exact ih hroots (hplaced.insert hroot) (all_lend htypes hdependents)

end Place

/-! ### Building a graph -/

/-- The roots of a graph are new or reused, and what holds of the new types and of those that are
reused holds of its types. -/
theorem all_of_assemble {P : Shared ObjectType → Prop} {Q : String → Shared NamedType → Prop}
    {entries : List (ModelDecl × Option ModelTypes)} {graph : TypeGraph} {fresh : List ModelTypes}
    (hok : run.assemble entries = .ok (graph, fresh))
    (hroots : (run.share .root (run.layOut (freshOf entries)).settled.roots).All P)
    (htypes : ∀ name type,
      (run.share .type (run.layOut (freshOf entries)).settled.namedTypes).get? name = some type →
        Q name type)
    (hentries : ∀ model types, (model, some types) ∈ entries →
      ∀ dependent ∈ types.dependents, Q dependent.value.name dependent) :
    graph.identity = run.identity ∧
      (graph.models.All fun root => P root ∨
        ∃ model types, (model, some types) ∈ entries ∧ types.root = root) ∧
      (∀ name type, graph.types.get? name = some type → Q name type) ∧
      ∀ types ∈ fresh, P types.root ∧ ∀ dependent ∈ types.dependents, ∃ name, Q name dependent := by
  obtain ⟨arena, hresolve, hassemble⟩ := bind_eq_ok_iff.1 hok
  obtain ⟨-, -, hfinish⟩ := bind_eq_ok_iff.1 hassemble
  obtain ⟨-, rfl⟩ := Arena.resolve_eq_ok_iff.1 hresolve
  have hreused : (reusedOf entries).All fun types => ∃ model, (model, some types) ∈ entries := by
    intro name types hget
    obtain ⟨⟨model, found⟩, hmem, hsome⟩ :=
      List.mem_filterMap.1 (OrderedMap.mem_of_get?_ofList hget)
    obtain ⟨types, rfl, heq⟩ := Option.map_eq_some_iff.1 hsome
    cases heq
    exact ⟨model, hmem⟩
  obtain ⟨hmodels, hothers⟩ := all_foldl_place
    (P := fun root => P root ∨ ∃ model types, (model, some types) ∈ entries ∧ types.root = root)
    (Q := Q)
    (fun name types hget => by
      obtain ⟨model, hmem⟩ := hreused name types hget
      exact ⟨.inr ⟨model, types, hmem, rfl⟩, hentries model types hmem⟩)
    (entries.map Prod.fst) (fun name root hget => .inl (hroots name root hget))
    OrderedMap.all_empty htypes
  obtain ⟨rfl, rfl⟩ := Prod.mk.inj (Except.ok.inj hfinish)
  refine ⟨rfl, hmodels, hothers, fun types hmem => ?_⟩
  obtain ⟨⟨name, root⟩, hentry, rfl⟩ := List.mem_map.1 hmem
  refine ⟨hroots name root (OrderedMap.get?_eq_some_iff.2 hentry), fun dependent hdependent => ?_⟩
  obtain ⟨name, -, hget⟩ := mem_dependentsOf_iff.1 hdependent
  exact ⟨name, htypes name dependent hget⟩

/-- A root that a run has made, with its mark. -/
structure Makes (root : Shared ObjectType) : Prop where
  origin : ∃ name, root.origin = ⟨run.number, .root name⟩
  identity : root.value.identity = some run.identity

variable {run}

/-- A run puts its mark on the roots that it makes, and on no other type. -/
theorem owned_of_assemble {entries : List (ModelDecl × Option ModelTypes)} {graph : TypeGraph}
    {fresh : List ModelTypes} (hok : run.assemble entries = .ok (graph, fresh))
    (hmarked : ∀ model types, (model, some types) ∈ entries →
      types.root.value.identity = some run.identity ∧ types.Unmarked) :
    graph.OwnedBy run.identity ∧
      (graph.models.All fun root => run.Makes root ∨
        ∃ model types, (model, some types) ∈ entries ∧ types.root = root) ∧
      ∀ types ∈ fresh, run.Makes types.root ∧ types.Unmarked := by
  have hbuilt := (run.marked_layOut (freshOf entries)).settled
  obtain ⟨hmark, hmodels, hothers, hfresh⟩ := run.all_of_assemble
    (P := run.Makes) (Q := fun _ type => type.value.Unmarked) hok
    (fun name root hget =>
      have h := run.all_share hbuilt.roots .root name root hget
      ⟨h.2, h.1⟩)
    (fun name type hget => (run.all_share hbuilt.namedTypes .type name type hget).1)
    (fun model types hmem => (hmarked model types hmem).2)
  refine ⟨⟨hmark, fun name root hget => ?_, hothers⟩, hmodels, fun types hmem => ?_⟩
  · rcases hmodels name root hget with hmakes | ⟨model, types, hmem, rfl⟩
    · exact hmakes.identity
    · exact (hmarked model types hmem).1
  · obtain ⟨hmakes, hdependents⟩ := hfresh types hmem
    refine ⟨hmakes, fun dependent hdependent => ?_⟩
    obtain ⟨-, hunmarked⟩ := hdependents dependent hdependent
    exact hunmarked

/-! ### Reusing types -/

end Run

namespace CacheLayer

variable {α : Type}

/-- The value that a layer has under a key, be it expired. -/
def stored? (key : String) (layer : CacheLayer (AnyStore α)) : Option α :=
  match layer.store with
  | some (.ttl store) => (store.entries.get? key).map Expiring.value
  | _ => none

theorem holds_iff {P : String → α → Prop} {layer : CacheLayer (AnyStore α)} :
    layer.Holds P ↔ ∀ key value, layer.stored? key = some value → P key value := by
  constructor
  · intro h key value hvalue
    rw [stored?] at hvalue
    split at hvalue
    · next store hstore =>
      obtain ⟨entry, hget, rfl⟩ := Option.map_eq_some_iff.1 hvalue
      exact h (.ttl store) hstore key entry hget
    · cases hvalue
  · intro h store hstore
    cases store with
    | ttl store =>
      intro key entry hget
      refine h key entry.value ?_
      rw [stored?, hstore]
      exact congrArg (Option.map Expiring.value) hget
    | null | broken => exact trivial

end CacheLayer

namespace Run

variable (run : Run)

/-- Types that a layer has under a key, as they are or with another mark than there. -/
def FoundIn (types : AnyLayer ModelTypes) (key : String) (found : ModelTypes) : Prop :=
  types.stored? key = some found ∨
    ∃ cached, types.stored? key = some cached ∧ cached.Rebinds run.identity found

variable {run} {base types : AnyLayer ModelTypes} (now : Nat)

/-- A model reuses what is stored, or that with the mark of the run. -/
theorem found_reuse (h : types.Holds (run.FoundIn base)) (index : Nat) (model : ModelDecl) :
    (∀ found, (run.reuse now index model types).1 = some found →
      run.FoundIn base model.cacheIdentity found ∧
        found.root.value.identity = some run.identity) ∧
      (run.reuse now index model types).2.Holds (run.FoundIn base) := by
  obtain ⟨hget, hholds⟩ := h.get? now model.cacheIdentity
  rw [Run.reuse]
  dsimp only
  cases hhit : (types.get? now model.cacheIdentity).1 with
  | none => exact ⟨fun _ hfound => (by cases hfound), hholds⟩
  | some cached =>
    have hcached := hget cached hhit
    dsimp only
    split
    · next hmark =>
      refine ⟨fun found hfound => ?_, hholds⟩
      obtain rfl := Option.some.inj hfound
      exact ⟨hcached, of_decide_eq_true hmark⟩
    · next hmark =>
      have hforeign : cached.root.value.identity ≠ some run.identity := fun heq =>
        hmark (decide_eq_true heq)
      -- What was given the mark before is not given it again.
      have hstored : base.stored? model.cacheIdentity = some cached := by
        rcases hcached with hstored | ⟨other, -, hrebinds⟩
        · exact hstored
        · exact absurd (congrArg ObjectType.identity hrebinds.root) hforeign
      have hrebound : run.FoundIn base model.cacheIdentity
          (cached.withIdentity run.identity ⟨run.number, .rebound index⟩) :=
        .inr ⟨cached, hstored, hforeign, rfl, rfl, rfl⟩
      refine ⟨fun found hfound => ?_, hholds.set now _ hrebound⟩
      obtain rfl := Option.some.inj hfound
      exact ⟨hrebound, rfl⟩

/-- So do the models of a run, one after another. -/
theorem found_reuseAll (h : types.Holds (run.FoundIn base)) (index : Nat)
    (models : List ModelDecl) :
    (∀ model found, (model, some found) ∈ (run.reuseAll now index models types).1 →
      model ∈ models ∧ run.FoundIn base model.cacheIdentity found ∧
        found.root.value.identity = some run.identity) ∧
      (run.reuseAll now index models types).2.Holds (run.FoundIn base) := by
  induction models generalizing index types with
  | nil => exact ⟨fun _ _ hmem => absurd hmem List.not_mem_nil, h⟩
  | cons model rest ih =>
    obtain ⟨hfirst, hholds⟩ := found_reuse now h index model
    obtain ⟨hothers, hholds'⟩ := ih hholds (index + 1)
    rw [reuseAll]
    refine ⟨fun other found hmem => ?_, hholds'⟩
    rcases List.mem_cons.1 hmem with heq | hmem
    · obtain ⟨rfl, hsome⟩ := Prod.mk.inj heq
      exact ⟨List.mem_cons_self .., hfirst found hsome.symm⟩
    · obtain ⟨hmodel, hfound⟩ := hothers other found hmem
      exact ⟨List.mem_cons_of_mem _ hmodel, hfound⟩

/-- Types with another mark have the same dependents, which carry none. -/
theorem FoundIn.unmarked {key : String} {found : ModelTypes} (h : run.FoundIn base key found)
    (hbase : base.Holds fun _ types => types.Unmarked) : found.Unmarked := by
  rcases h with hstored | ⟨cached, hstored, hrebinds⟩
  · exact CacheLayer.holds_iff.1 hbase key found hstored
  · rw [ModelTypes.Unmarked, hrebinds.dependents]
    exact CacheLayer.holds_iff.1 hbase key cached hstored

/-! ### One call -/

variable (run) in
/-- Where a root comes from: a run has made it, or it is that of types under the cache identity of a
model, maybe with the mark of the run. -/
def Brings (models : List ModelDecl) (base : AnyLayer ModelTypes) (root : Shared ObjectType) :
    Prop :=
  run.Makes root ∨ ∃ model ∈ models, ∃ types, run.FoundIn base model.cacheIdentity types ∧
    types.root = root

variable (run) in
/-- Types that were found in a layer, or are new there. -/
def FoundOrMade (base : AnyLayer ModelTypes) (key : String) (types : ModelTypes) : Prop :=
  run.FoundIn base key types ∨ run.Makes types.root ∧ types.Unmarked

/-- A graph that is built carries the mark of its run, and what is stored meanwhile was found, or is
new. -/
theorem owned_of_build (hbase : base.Holds fun _ types => types.Unmarked)
    (models : List ModelDecl) :
    (∀ graph, (run.build now models base).1 = .ok graph →
      graph.OwnedBy run.identity ∧ graph.models.All (run.Brings models base)) ∧
      (run.build now models base).2.Holds (run.FoundOrMade base) := by
  have hstart : base.Holds (run.FoundIn base) := CacheLayer.holds_iff.2 fun _ _ => .inl
  obtain ⟨hentries, hholds⟩ := found_reuseAll now hstart 0 models
  have hholds := hholds.imp (Q := run.FoundOrMade base) fun _ _ => .inl
  rw [Run.build]
  cases checkKeys [] models with
  | error e => exact ⟨fun _ hok => (by cases hok), hstart.imp fun _ _ => .inl⟩
  | ok =>
    dsimp only
    cases hassemble : run.assemble (run.reuseAll now 0 models base).1 with
    | error e => exact ⟨fun _ hok => (by cases hok), hholds⟩
    | ok result =>
      obtain ⟨graph, fresh⟩ := result
      obtain ⟨howned, hmodels, hfresh⟩ := owned_of_assemble hassemble fun model types hmem => by
        obtain ⟨-, hfound, hmark⟩ := hentries model types hmem
        exact ⟨hmark, hfound.unmarked hbase⟩
      refine ⟨fun other hok => ?_, ?_⟩
      · obtain ⟨_, -, rfl⟩ := map_eq_ok_iff.1 hok
        refine ⟨howned, fun name root hget => (hmodels name root hget).imp_right ?_⟩
        rintro ⟨model, types, hmem, hroot⟩
        obtain ⟨hmodel, hfound, -⟩ := hentries model types hmem
        exact ⟨model, hmodel, types, hfound, hroot⟩
      · exact hholds.foldl_set now (typesKey models) id fun types hmem => .inr (hfresh types hmem)

end Run

/-! ### Shared caches -/

namespace Caches

/-- Caches without an entry. -/
structure Empty (caches : Caches) : Prop where
  types : caches.types.Holds fun _ _ => False
  schemas : caches.schemas.Holds fun _ _ => False

/-- Caches with no mark but on the roots of types and on the models of graphs. -/
structure Marked (caches : Caches) : Prop where
  types : caches.types.Holds fun _ types => types.Unmarked
  schemas : caches.schemas.Holds fun _ graph => graph.value.OwnedBy graph.value.identity

theorem Empty.marked {caches : Caches} (h : caches.Empty) : caches.Marked :=
  ⟨h.types.imp fun _ _ => False.elim, h.schemas.imp fun _ _ => False.elim⟩

/-- A call gets a graph with the caller's mark, and leaves no other marks behind. -/
theorem Marked.synthesizeCached {caches : Caches} (h : caches.Marked) (run : Run) (now : Nat)
    (models : List ModelDecl) :
    let result := run.synthesizeCached now models caches
    (∀ graph, result.1 = .ok graph → graph.value.OwnedBy run.identity ∧
        (caches.schemas.stored? (schemaKey models) = some graph ∨
          graph.value.models.All (run.Brings models caches.types))) ∧
      result.2.types.Holds (run.FoundOrMade caches.types) ∧ result.2.Marked := by
  let Sound (key : String) (graph : Shared TypeGraph) : Prop :=
    graph.value.OwnedBy graph.value.identity ∧
      (caches.schemas.stored? key = some graph ∨
        graph.value.models.All (run.Brings models caches.types))
  obtain ⟨howned, htypes⟩ := Run.owned_of_build now h.types models
  have hbuilt : ∀ graph, (run.build now models caches.types).1 = .ok graph →
      Sound (schemaKey models) ⟨⟨run.number, .graph⟩, graph⟩ := by
    intro graph hok
    obtain ⟨howned, hbrings⟩ := howned graph hok
    exact ⟨howned.mark.symm ▸ howned, .inr hbrings⟩
  have hsound : caches.schemas.Holds Sound := CacheLayer.holds_iff.2 fun key graph hstores =>
    ⟨CacheLayer.holds_iff.1 h.schemas key graph hstores, .inl hstores⟩
  have hstart : caches.types.Holds (run.FoundOrMade caches.types) :=
    CacheLayer.holds_iff.2 fun _ _ hstores => .inl (.inl hstores)
  obtain ⟨hresult, hschemas, hfound⟩ := run.found_or_built now models
    (Q := fun types => types.Holds (run.FoundOrMade caches.types)) hsound hstart htypes hbuilt
  refine ⟨fun graph hok => ?_, hfound, hfound.imp ?_, hschemas.imp fun _ _ => And.left⟩
  · rcases hresult with heq | ⟨value, heq, hmark, hvalue, hstores⟩
    · obtain ⟨value, hvalue, rfl⟩ := map_eq_ok_iff.1 (heq.symm.trans hok)
      obtain ⟨howned, hbrings⟩ := howned value hvalue
      exact ⟨howned, .inr hbrings⟩
    · obtain rfl := Except.ok.inj (heq.symm.trans hok)
      exact ⟨hmark ▸ hvalue, hstores⟩
  · rintro key types (hfound | ⟨-, hunmarked⟩)
    · exact hfound.unmarked h.types
    · exact hunmarked

end Caches

/-! Expired entries may also be dropped when no one asks for them. -/

/-- Drops every expired entry. -/
def AnyStore.purge {α : Type} (now : Nat) : AnyStore α → AnyStore α
  | .ttl store => .ttl (store.purge now)
  | .null store => .null store
  | .broken store => .broken store

/-- Drops every expired entry. -/
def CacheLayer.purge {α : Type} (now : Nat) (layer : AnyLayer α) : AnyLayer α :=
  { layer with store := layer.store.map (AnyStore.purge now) }

theorem CacheLayer.Holds.purge {α : Type} {P : String → α → Prop} {layer : AnyLayer α}
    (h : layer.Holds P) (now : Nat) : (layer.purge now).Holds P := by
  intro store hstore
  obtain ⟨old, hold, rfl⟩ := Option.map_eq_some_iff.1 hstore
  have hholds := h old hold
  cases old with
  | ttl store => exact TtlStore.Holds.purge hholds now
  | null | broken => exact trivial

namespace Caches

/-- What happens to caches: one of the callers that share them asks for a graph, or expired entries
are dropped. -/
inductive Event where
  | synthesize (run : Run) (now : Nat) (models : List ModelDecl)
  | expire (now : Nat)

/-- The caches that an event leaves. -/
def perform (caches : Caches) : Event → Caches
  | .synthesize run now models => (run.synthesizeCached now models caches).2
  | .expire now =>
    { caches with types := caches.types.purge now, schemas := caches.schemas.purge now }

/-- The caches that events leave. -/
def after (caches : Caches) (events : List Event) : Caches := events.foldl perform caches

theorem Marked.perform {caches : Caches} (h : caches.Marked) (event : Event) :
    (caches.perform event).Marked := by
  cases event with
  | synthesize run now models => exact (h.synthesizeCached run now models).2.2
  | expire now => exact ⟨h.types.purge now, h.schemas.purge now⟩

theorem Marked.after {caches : Caches} (h : caches.Marked) (events : List Event) :
    (caches.after events).Marked := by
  induction events generalizing caches with
  | nil => exact h
  | cons event rest ih => exact ih (h.perform event)

end Caches

/-- Whatever callers did to caches that they share, a call gets a graph that carries the caller's
mark, as all of its models do and none of its other types. Unless the graph is cached as a whole,
its models are new, or come from the types that are cached for them. So does what the call leaves in
the types cache: types that were given the caller's mark are otherwise what was cached before.
Nothing in the caches ever has a mark but roots. -/
theorem Run.owned_of_synthesizeCached {start : Caches} (hstart : start.Empty)
    (events : List Caches.Event) (run : Run) (now : Nat) (models : List ModelDecl) :
    let caches := start.after events
    let result := run.synthesizeCached now models caches
    (∀ graph, result.1 = .ok graph → graph.value.OwnedBy run.identity ∧
        (caches.schemas.stored? (schemaKey models) = some graph ∨
          graph.value.models.All (run.Brings models caches.types))) ∧
      result.2.types.Holds (run.FoundOrMade caches.types) ∧ caches.Marked ∧ result.2.Marked := by
  have hmarked : (start.after events).Marked := hstart.marked.after events
  obtain ⟨howned, hfound, hmarked'⟩ := hmarked.synthesizeCached run now models
  exact ⟨howned, hfound, hmarked, hmarked'⟩

theorem Caches.empty_ofSettings (start : Nat) (settings : CacheSettings) :
    (Caches.ofSettings start settings).Empty := by
  rw [Caches.ofSettings]
  split
  · exact ⟨CacheLayer.holds_new _ _, CacheLayer.holds_new _ _⟩
  · exact ⟨CacheLayer.holds_disabled, CacheLayer.holds_disabled⟩

/-- A person whose types another caller left in the cache is given the mark of the one that asks. -/
theorem Run.owned_of_synthesizeCached_person :
    let caches := (Caches.ofSettings 0 {}).after
      [.synthesize (Run.mk {} ⟨0⟩ 0) 0 [.person, .shop], .expire 5]
    ∃ graph root, ((Run.mk {} ⟨1⟩ 1).synthesizeCached 10 [.person] caches).1 = .ok graph ∧
      graph.value.OwnedBy ⟨1⟩ ∧ graph.value.models.get? "person" = some root ∧
        ∃ cached types, caches.types.stored? "people" = some cached ∧ cached.Rebinds ⟨1⟩ types ∧
          types.root = root := by
  intro caches
  let result := ((Run.mk {} ⟨1⟩ 1).synthesizeCached 10 [.person] caches).1
  obtain ⟨howned, -⟩ := Run.owned_of_synthesizeCached (Caches.empty_ofSettings 0 {})
    [.synthesize (Run.mk {} ⟨0⟩ 0) 0 [.person, .shop], .expire 5] (Run.mk {} ⟨1⟩ 1) 10 [.person]
  obtain ⟨graph, hok, horigin⟩ : ∃ graph, result = .ok graph ∧
      decide ((graph.value.models.get? "person").map Shared.origin = some ⟨1, .rebound 0⟩) = true :=
    exists_eq_ok_of_any (by decide +kernel)
  obtain ⟨howned, hsource⟩ := howned graph hok
  obtain ⟨root, hroot, horigin⟩ := Option.map_eq_some_iff.1 (of_decide_eq_true horigin)
  have hbrings := hsource.resolve_left fun hcached => by
    have hnew : (caches.schemas.stored? (schemaKey [.person])).isNone = true := by decide +kernel
    rw [hcached] at hnew
    cases hnew
  rcases hbrings "person" root hroot with hmakes | ⟨model, hmodel, types, hfound, rfl⟩
  · obtain ⟨name, hname⟩ := hmakes.origin
    cases horigin.symm.trans hname
  · obtain rfl := List.mem_singleton.1 hmodel
    rcases hfound with hstored | ⟨cached, hstored, hrebinds⟩
    · have hmade : (caches.types.stored? "people").map (fun types => types.root.origin) =
          some ⟨0, .root "person"⟩ := by decide +kernel
      rw [show caches.types.stored? "people" = some types from hstored] at hmade
      cases horigin.symm.trans (Option.some.inj hmade)
    · exact ⟨graph, types.root, hok, howned, hroot, cached, types, hstored, hrebinds, rfl⟩

end ModelGraph
