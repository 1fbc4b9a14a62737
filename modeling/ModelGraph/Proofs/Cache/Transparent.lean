import ModelGraph.Cache.Synthesizer
import ModelGraph.Proofs.Cache.Store
import ModelGraph.Proofs.Graph.Assemble

/-!
# Caches are transparent

A caller that always gives the same declared model for a key and a version gets the same graphs from
its caches as it would get without them, whatever has expired in between. That takes models which do
not depend on what is laid out beside them: of the models of a call, some can be found in the cache,
and the part that is left has to fit.

## Main definitions

- `Run.Call`, `Run.Step`, `Run.after` — what happens to the caches of a caller, and what it leaves
- `Run.Steady`, `Run.Consistent` — what a caller has to keep to
- `Run.Storable`, `Run.Missing` — what can be found in its caches, and what may be missing
- `Run.TypesFor`, `Run.GraphFor` — what the caches of such a caller hold
- `Run.Transparent` — a call that is answered as without caches

## Main statements

- `Run.Consistent.of_modular` — a steady caller with modular models is consistent
- `Run.synthesizeCached_alike` — the caches of a consistent caller are transparent
- `Run.synthesizeCached_deviates` — what a steady caller has to keep from besides
-/

namespace ModelGraph

namespace Run

/-- A call of a caller: its time, the number of its run, and its models. -/
structure Call where
  now : Nat
  number : Nat
  models : List ModelDecl

variable (run : Run)

/-- Another run of the same caller. -/
def numbered (number : Nat) : Run := { run with number }

/-! ### What a caller keeps to -/

/-- A caller that gives one declared model for each key and version, whose cache identities tell
them apart, and whose models in one call have different output names. -/
structure Steady (calls : List (List ModelDecl)) : Prop where
  descriptors : ∀ models ∈ calls, ∀ others ∈ calls, ∀ model ∈ models, ∀ other ∈ others,
    model.key = other.key → model.version = other.version → model = other
  identities : ∀ models ∈ calls, ∀ others ∈ calls, ∀ model ∈ models, ∀ other ∈ others,
    model.cacheIdentity = other.cacheIdentity →
      model.key = other.key ∧ model.version = other.version
  names : ∀ models ∈ calls, (models.map ModelDecl.rootName).Nodup

/-- Whether some call can store types of a model: it builds the model in a part of its models that is
resolved. -/
def Storable (calls : List (List ModelDecl)) (model : ModelDecl) : Prop :=
  ∃ models ∈ calls, ∃ part, part.Sublist models ∧ model ∈ part ∧ run.Resolves models part

/-- Whether a part of a call's models is what the caches may miss: types of the others can have been
stored. -/
structure Missing (calls : List (List ModelDecl)) (models part : List ModelDecl) : Prop where
  sublist : part.Sublist models
  storable : ∀ model ∈ models, model ∉ part → run.Storable calls model

/-- A steady caller whose models do not depend on which of them are found. What the caches may miss
fits. When some models are found, and all that the call's models reach passes, then what is missing
can be built just as well as all of them, where either is resolved at all. Two calls have one key only
when they have the same cache identities. -/
structure Consistent (calls : List (List ModelDecl)) : Prop extends Steady calls where
  fits : ∀ models ∈ calls, ∀ part, run.Missing calls models part → run.Fits models part
  completes : ∀ models ∈ calls, (∀ model ∈ models, run.Shows models model) →
    ∀ part, run.Missing calls models part → part ≠ models →
      run.Resolves models part ∨ run.Resolves models models →
        run.Completes models part ∧ run.Completes models models
  schemaKeys : ∀ models ∈ calls, ∀ others ∈ calls, schemaKey models = schemaKey others →
    models.map ModelDecl.cacheIdentity = others.map ModelDecl.cacheIdentity

section Steady

variable {calls : List (List ModelDecl)}

instance : Decidable (Steady calls) :=
  decidable_of_iff
    ((∀ models ∈ calls, ∀ others ∈ calls, ∀ model ∈ models, ∀ other ∈ others,
        model.key = other.key → model.version = other.version → model = other) ∧
      (∀ models ∈ calls, ∀ others ∈ calls, ∀ model ∈ models, ∀ other ∈ others,
        model.cacheIdentity = other.cacheIdentity →
          model.key = other.key ∧ model.version = other.version) ∧
      ∀ models ∈ calls, (models.map ModelDecl.rootName).Nodup)
    ⟨fun h => ⟨h.1, h.2.1, h.2.2⟩, fun h => ⟨h.descriptors, h.identities, h.names⟩⟩

/-- A steady caller whose models in one call are modular is consistent. -/
theorem Consistent.of_modular {run : Run} (h : Steady calls)
    (hmodular : ∀ models ∈ calls, run.Modular models)
    (hkeys : ∀ models ∈ calls, ∀ others ∈ calls, schemaKey models = schemaKey others →
      models.map ModelDecl.cacheIdentity = others.map ModelDecl.cacheIdentity) :
    run.Consistent calls where
  toSteady := h
  fits models hmodels part hmissing := (hmodular models hmodels).fits part hmissing.sublist
  completes models hmodels hshows part hmissing _ _ :=
    have hcompletes := (hmodular models hmodels).completes hshows
    ⟨hcompletes part hmissing.sublist, hcompletes models (List.Sublist.refl models)⟩
  schemaKeys := hkeys

theorem missing_self (calls : List (List ModelDecl)) (models : List ModelDecl) :
    run.Missing calls models models :=
  ⟨List.Sublist.refl models, fun _ hmodel hnot => absurd hmodel hnot⟩

/-- The cache identity of a model tells which one it is. -/
theorem Steady.eq_of_cacheIdentity (h : Steady calls) {models others : List ModelDecl}
    (hmodels : models ∈ calls) (hothers : others ∈ calls) {model other : ModelDecl}
    (hmodel : model ∈ models) (hother : other ∈ others)
    (heq : model.cacheIdentity = other.cacheIdentity) : model = other := by
  obtain ⟨hkey, hversion⟩ := h.identities models hmodels others hothers model hmodel other hother heq
  exact h.descriptors models hmodels others hothers model hmodel other hother hkey hversion

/-- The key of a call tells which models it has. -/
theorem Consistent.eq_of_schemaKey {run : Run} (h : run.Consistent calls)
    {models others : List ModelDecl} (hmodels : models ∈ calls) (hothers : others ∈ calls)
    (heq : schemaKey models = schemaKey others) : models = others := by
  have hidentities := h.schemaKeys models hmodels others hothers heq
  refine List.ext_getElem ?_ fun index hindex hindex' => ?_
  · simpa using congrArg List.length hidentities
  · refine h.eq_of_cacheIdentity hmodels hothers (List.getElem_mem _) (List.getElem_mem _) ?_
    have hget := congrArg (fun identities => identities[index]?) hidentities
    simpa [hindex, hindex'] using hget

end Steady

/-! ### Invariants -/

/-- Types under a key that stand for every model of the calls with that cache identity, and can have
been stored. -/
def TypesFor (calls : List (List ModelDecl)) (key : String) (types : ModelTypes) : Prop :=
  ∀ models ∈ calls, ∀ model ∈ models, model.cacheIdentity = key →
    run.Storable calls model ∧ run.Reusable model types

/-- A graph that stands for models with different keys, of which everything passes, and which can be
built. -/
structure Stands (models : List ModelDecl) (graph : TypeGraph) : Prop where
  keys : checkKeys [] models = .ok ()
  shows : ∀ model ∈ models, run.Shows models model
  completes : run.Completes models models
  faithful : run.Faithful models graph

/-- A graph under a key that stands for all calls with that key. -/
def GraphFor (calls : List (List ModelDecl)) (key : String) (graph : Shared TypeGraph) : Prop :=
  ∀ models ∈ calls, schemaKey models = key → run.Stands models graph.value

/-- Caches that hold only what stands for models of the calls. -/
structure CachesFor (calls : List (List ModelDecl)) (caches : Caches) : Prop where
  types : caches.types.Holds (run.TypesFor calls)
  schemas : caches.schemas.Holds (run.GraphFor calls)

/-! The number of a run marks what it shares, and nothing else depends on it. -/

section Numbered

variable {run : Run} (number : Nat)

theorem Resolves.numbered {models part : List ModelDecl} (h : run.Resolves models part) :
    (run.numbered number).Resolves models part :=
  ⟨h.targets, h.resolved⟩

theorem Completes.numbered {models part : List ModelDecl} (h : run.Completes models part) :
    (run.numbered number).Completes models part :=
  ⟨h.toResolves.numbered number, h.passes⟩

theorem Storable.numbered {calls : List (List ModelDecl)} {model : ModelDecl}
    (h : run.Storable calls model) : (run.numbered number).Storable calls model := by
  obtain ⟨models, hmodels, part, hpart, hmodel, hresolves⟩ := h
  exact ⟨models, hmodels, part, hpart, hmodel, hresolves.numbered number⟩

theorem Missing.numbered {calls : List (List ModelDecl)} {models part : List ModelDecl}
    (h : run.Missing calls models part) : (run.numbered number).Missing calls models part :=
  ⟨h.sublist, fun model hmodel hnot => (h.storable model hmodel hnot).numbered number⟩

theorem Consistent.numbered {calls : List (List ModelDecl)} (h : run.Consistent calls) :
    (run.numbered number).Consistent calls where
  toSteady := h.toSteady
  fits models hmodels part hmissing :=
    have hfits := h.fits models hmodels part (hmissing.numbered run.number)
    ⟨hfits.root, hfits.own, hfits.other⟩
  completes models hmodels hshows part hmissing hne hresolves :=
    have hcompletes := h.completes models hmodels hshows part (hmissing.numbered run.number) hne
      (hresolves.imp (fun h => h.numbered run.number) fun h => h.numbered run.number)
    ⟨hcompletes.1.numbered number, hcompletes.2.numbered number⟩
  schemaKeys := h.schemaKeys

theorem Reusable.numbered {model : ModelDecl} {types : ModelTypes} (h : run.Reusable model types) :
    (run.numbered number).Reusable model types :=
  ⟨h.root, h.dependents⟩

theorem Faithful.numbered {models : List ModelDecl} {graph : TypeGraph}
    (h : run.Faithful models graph) : (run.numbered number).Faithful models graph :=
  ⟨h.identity, h.keys, h.roots, h.types⟩

theorem Stands.numbered {models : List ModelDecl} {graph : TypeGraph} (h : run.Stands models graph) :
    (run.numbered number).Stands models graph :=
  ⟨h.keys, h.shows, h.completes.numbered number, h.faithful.numbered number⟩

theorem CachesFor.numbered {calls : List (List ModelDecl)} {caches : Caches}
    (h : run.CachesFor calls caches) : (run.numbered number).CachesFor calls caches where
  types := h.types.imp fun _ _ htypes models hmodels model hmodel hkey =>
    (htypes models hmodels model hmodel hkey).imp (Storable.numbered number)
      (Reusable.numbered number)
  schemas := h.schemas.imp fun _ _ hgraph models hmodels hkey =>
    (hgraph models hmodels hkey).numbered number

end Numbered

/-! ### One call -/

section Build

variable {run : Run} {calls : List (List ModelDecl)} {models : List ModelDecl}
  (hmodels : models ∈ calls) (now : Nat)

include hmodels

/-- Types that are found for a model can be reused for it, and they carry the caller's mark. -/
theorem reusable_of_reuse (index : Nat) {model : ModelDecl} (hmodel : model ∈ models)
    {types : AnyLayer ModelTypes} (htypes : types.Holds (run.TypesFor calls)) :
    (∀ found, (run.reuse now index model types).1 = some found →
        run.Storable calls model ∧ run.Reusable model found) ∧
      (run.reuse now index model types).2.Holds (run.TypesFor calls) := by
  obtain ⟨hget, hholds⟩ := htypes.get? now model.cacheIdentity
  rw [Run.reuse]
  dsimp only
  cases hhit : (types.get? now model.cacheIdentity).1 with
  | none => exact ⟨fun _ hfound => (by cases hfound), hholds⟩
  | some cached =>
    have hcached := hget cached hhit models hmodels model hmodel rfl
    obtain ⟨root, hroot, -, hidentity⟩ := run.exists_root model
    have hmark : cached.root.value.hasIdentity run.identity = true := by
      obtain rfl := Option.some.inj (hroot.symm.trans hcached.2.root)
      exact decide_eq_true hidentity
    dsimp only
    rw [if_pos hmark]
    exact ⟨fun found hfound => Option.some.inj hfound ▸ hcached, hholds⟩

theorem reuses_reuseAll {part : List ModelDecl} (hpart : part ⊆ models) (index : Nat)
    {types : AnyLayer ModelTypes} (htypes : types.Holds (run.TypesFor calls)) :
    let entries := (run.reuseAll now index part types).1
    run.Reuses part entries ∧
      (∀ model found, (model, some found) ∈ entries → run.Storable calls model) ∧
      (run.reuseAll now index part types).2.Holds (run.TypesFor calls) := by
  induction part generalizing index types with
  | nil =>
    exact ⟨⟨rfl, fun _ _ hmem => absurd hmem List.not_mem_nil⟩,
      fun _ _ hmem => absurd hmem List.not_mem_nil, htypes⟩
  | cons model rest ih =>
    obtain ⟨hmodel, hrest⟩ := List.cons_subset.1 hpart
    obtain ⟨hfound, hholds⟩ := reusable_of_reuse hmodels now index hmodel htypes
    obtain ⟨hentries, hstorable, hholds'⟩ := ih hrest (index + 1) hholds
    rw [Run.reuseAll]
    refine ⟨⟨?_, fun other found hmem => ?_⟩, fun other found hmem => ?_, hholds'⟩
    · exact congrArg (model :: ·) hentries.models
    · rcases List.mem_cons.1 hmem with heq | hmem
      · obtain ⟨rfl, hsome⟩ := Prod.mk.inj heq
        exact (hfound found hsome.symm).2
      · exact hentries.reusable other found hmem
    · rcases List.mem_cons.1 hmem with heq | hmem
      · obtain ⟨rfl, hsome⟩ := Prod.mk.inj heq
        exact (hfound found hsome.symm).1
      · exact hstorable other found hmem

omit hmodels in
/-- What a call does not find is what the caches may miss. -/
theorem missing_freshOf {entries : List (ModelDecl × Option ModelTypes)}
    (hentries : run.Reuses models entries)
    (hstorable : ∀ model found, (model, some found) ∈ entries → run.Storable calls model) :
    run.Missing calls models (freshOf entries) := by
  refine ⟨hentries.sublist_freshOf, fun model hmodel hnot => ?_⟩
  obtain ⟨found, hmem⟩ := hentries.exists_entry hmodel
  cases found with
  | none => exact absurd (mem_freshOf.2 hmem) hnot
  | some found => exact hstorable model found hmem

variable (h : run.Consistent calls)

include h

/-- What is missing can be built when all of the models can. -/
theorem Consistent.completes_missing {part : List ModelDecl} (hmissing : run.Missing calls models part)
    (hshows : ∀ model ∈ models, run.Shows models model) (hwhole : run.Completes models models) :
    run.Completes models part := by
  by_cases hall : part = models
  · rwa [hall]
  · exact (h.completes models hmodels hshows part hmissing hall (.inr hwhole.toResolves)).1

/-- New types are stored under the cache identity of their model. -/
theorem Consistent.typesFor {model : ModelDecl} (hmodel : model ∈ models) {types : ModelTypes}
    (hkey : types.key = model.name) (hstorable : run.Storable calls model)
    (htypes : run.Reusable model types) : run.TypesFor calls (typesKey models types) types := by
  intro others hothers other hother hidentity
  have hfind : typesKey models types = model.cacheIdentity := by
    rw [typesKey]
    cases hfound : models.find? fun model => model.name = types.key with
    | none =>
      exact absurd (decide_eq_true hkey.symm) (List.find?_eq_none.1 hfound model hmodel)
    | some other =>
      have hname : other.name = types.key := by simpa using List.find?_some hfound
      obtain rfl := List.inj_on_of_nodup_map (nodup_names (h.names models hmodels))
        (List.mem_of_find?_eq_some hfound) hmodel (hname.trans hkey)
      rfl
  rw [hfind] at hidentity
  obtain rfl := h.eq_of_cacheIdentity hothers hmodels hother hmodel hidentity
  exact ⟨hstorable, htypes⟩

theorem Consistent.setAll {part : List ModelDecl} (hpart : part.Sublist models)
    (hresolves : run.Resolves models part) {fresh : List ModelTypes}
    (hfresh : ∀ types ∈ fresh, ∃ model ∈ part, types.key = model.name ∧ run.Reusable model types)
    {types : AnyLayer ModelTypes} (htypes : types.Holds (run.TypesFor calls)) :
    (fresh.foldl (fun types entry => types.set now (typesKey models entry) entry) types).Holds
      (run.TypesFor calls) := by
  refine htypes.foldl_set now (typesKey models) id fun types hmem => ?_
  obtain ⟨model, hmodel, hkey, htypes⟩ := hfresh types hmem
  exact h.typesFor hmodels (hpart.subset hmodel) hkey ⟨models, hmodels, part, hpart, hmodel, hresolves⟩
    htypes

/-- A graph that is built stands for its models, and models that can be built have one. -/
theorem Consistent.build {types : AnyLayer ModelTypes} (htypes : types.Holds (run.TypesFor calls)) :
    (∀ graph, (run.build now models types).1 = .ok graph → run.Stands models graph) ∧
      (checkKeys [] models = .ok () → (∀ model ∈ models, run.Shows models model) →
        run.Completes models models → ∃ graph, (run.build now models types).1 = .ok graph) ∧
      (run.build now models types).2.Holds (run.TypesFor calls) := by
  have hnames := h.names models hmodels
  obtain ⟨hentries, hstorable, hholds⟩ :=
    reuses_reuseAll hmodels now (List.Subset.refl _) 0 htypes
  rw [Run.build]
  generalize run.reuseAll now 0 models types = looked at *
  have hmissing := missing_freshOf hentries hstorable
  have hwhole := h.fits models hmodels models (run.missing_self calls models)
  have hpart := h.fits models hmodels _ hmissing
  cases hkeys : checkKeys [] models with
  | error e => exact ⟨fun _ hok => (by cases hok), fun hok => (by cases hok), htypes⟩
  | ok _ =>
    dsimp only
    cases hassemble : run.assemble looked.1 with
    | error e =>
      refine ⟨fun _ hok => (by cases hok), fun _ hshows hcompletes => ?_, hholds⟩
      have hpartly := h.completes_missing hmodels hmissing hshows hcompletes
      have hok := hentries.assemble_eq_ok_iff.2 ⟨hpartly.toResolves, rfl⟩
      rw [hassemble] at hok
      cases hok
    | ok result =>
      obtain ⟨graph, fresh⟩ := result
      obtain ⟨hfaithful, hresolves, hfresh⟩ := hentries.of_assemble hnames hwhole hpart hassemble
      obtain ⟨-, hresult⟩ := hentries.assemble_eq_ok_iff.1 hassemble
      obtain rfl : (run.finish (run.built looked.1) models (reusedOf looked.1)).1 = graph :=
        congrArg Prod.fst hresult
      refine ⟨fun other hother => ?_, fun _ hshows hcompletes => ?_,
        h.setAll hmodels now hmissing.sublist hresolves hfresh hholds⟩
      · obtain ⟨_, hvalidate, rfl⟩ := map_eq_ok_iff.1 hother
        have hshows := hfaithful.shows_of_validate hvalidate
        refine ⟨hkeys, hshows, ?_, hfaithful⟩
        by_cases hall : freshOf looked.1 = models
        · exact ⟨hall ▸ hresolves, fun type htype field hfield =>
            hentries.passes_of_validate hnames hwhole hpart hall hvalidate htype hfield⟩
        · exact (h.completes models hmodels hshows _ hmissing hall (.inl hresolves)).2
      · have hvalid := hentries.validate_of_shows hnames hwhole hpart hshows
          (h.completes_missing hmodels hmissing hshows hcompletes)
        exact ⟨_, map_eq_ok_iff.2 ⟨(), hvalid, rfl⟩⟩

end Build

/-- A graph is found in the cache with the mark of the run, or it is built. What holds of the graphs
that are cached and of those that are built holds of all that are cached afterwards. -/
theorem found_or_built (now : Nat) (models : List ModelDecl) {caches : Caches}
    {P : String → Shared TypeGraph → Prop} {Q : AnyLayer ModelTypes → Prop}
    (hschemas : caches.schemas.Holds P) (htypes : Q caches.types)
    (hleft : Q (run.build now models caches.types).2)
    (hbuilt : ∀ graph, (run.build now models caches.types).1 = .ok graph →
      P (schemaKey models) ⟨⟨run.number, .graph⟩, graph⟩) :
    let result := run.synthesizeCached now models caches
    (result.1 = (run.build now models caches.types).1.map (Shared.mk ⟨run.number, .graph⟩) ∨
        ∃ graph, result.1 = .ok graph ∧ graph.value.identity = run.identity ∧
          P (schemaKey models) graph) ∧
      result.2.schemas.Holds P ∧ Q result.2.types := by
  let build (types : AnyLayer ModelTypes) :
      Except SynthError (Shared TypeGraph) × AnyLayer ModelTypes :=
    ((run.build now models types).1.map (Shared.mk ⟨run.number, .graph⟩),
      (run.build now models types).2)
  have hnew : ∀ graph, (build caches.types).1 = .ok graph → P (schemaKey models) graph := by
    intro graph hok
    obtain ⟨value, hvalue, rfl⟩ := map_eq_ok_iff.1 hok
    exact hbuilt value hvalue
  obtain ⟨hresult, hholds, htypes'⟩ := hschemas.getOrBuild now (schemaKey models)
    (fun graph => decide (graph.value.identity = run.identity)) build htypes hleft hnew
  refine ⟨hresult.imp_right ?_, hholds, htypes'⟩
  rintro ⟨graph, hok, hmark, hgraph⟩
  exact ⟨graph, hok, of_decide_eq_true hmark, hgraph⟩

/-- A call finds or builds a graph that stands for its models, and there is one when these can be
built. -/
theorem Consistent.synthesizeCached {run : Run} {calls : List (List ModelDecl)}
    {models : List ModelDecl} (h : run.Consistent calls) (hmodels : models ∈ calls) (now : Nat)
    {caches : Caches} (hcaches : run.CachesFor calls caches) :
    (∀ graph, (run.synthesizeCached now models caches).1 = .ok graph →
        run.Stands models graph.value) ∧
      (checkKeys [] models = .ok () → (∀ model ∈ models, run.Shows models model) →
        run.Completes models models →
          ∃ graph, (run.synthesizeCached now models caches).1 = .ok graph) ∧
      run.CachesFor calls (run.synthesizeCached now models caches).2 := by
  obtain ⟨hstands, hexists, htypes⟩ := h.build hmodels now hcaches.types
  -- A key that is asked for again stands for the same list, so what is stored is right for it.
  have hnew : ∀ graph, (run.build now models caches.types).1 = .ok graph →
      run.GraphFor calls (schemaKey models) ⟨⟨run.number, .graph⟩, graph⟩ := by
    intro graph hok others hothers hkey
    obtain rfl := h.eq_of_schemaKey hothers hmodels hkey
    exact hstands graph hok
  obtain ⟨hresult, hschemas, htypes'⟩ := run.found_or_built now models
    (Q := fun types => types.Holds (run.TypesFor calls)) hcaches.schemas hcaches.types htypes hnew
  refine ⟨fun graph hok => ?_, fun hkeys hshows hcompletes => ?_, htypes', hschemas⟩
  · rcases hresult with heq | ⟨value, heq, -, hvalue⟩
    · obtain ⟨value, hvalue, rfl⟩ := map_eq_ok_iff.1 (heq.symm.trans hok)
      exact hstands value hvalue
    · obtain rfl := Except.ok.inj (heq.symm.trans hok)
      exact hvalue models hmodels rfl
  · rcases hresult with heq | ⟨value, heq, -, -⟩
    · obtain ⟨graph, hgraph⟩ := hexists hkeys hshows hcompletes
      exact ⟨_, heq.trans (congrArg (Except.map _) hgraph)⟩
    · exact ⟨value, heq⟩

theorem cachesFor_disabled (calls : List (List ModelDecl)) : run.CachesFor calls .disabled :=
  ⟨CacheLayer.holds_disabled, CacheLayer.holds_disabled⟩

theorem cachesFor_ofSettings (calls : List (List ModelDecl)) (start : Nat)
    (settings : CacheSettings) : run.CachesFor calls (.ofSettings start settings) := by
  rw [Caches.ofSettings]
  split
  · exact ⟨CacheLayer.holds_new _ _, CacheLayer.holds_new _ _⟩
  · exact run.cachesFor_disabled calls

/-! ### No caches -/

/-- Where nothing is found, every model is built. -/
theorem reuseAll_of_none {now : Nat} {types : AnyLayer ModelTypes}
    (h : ∀ key, types.get? now key = (none, types)) (index : Nat) (models : List ModelDecl) :
    run.reuseAll now index models types = (models.map fun model => (model, none), types) := by
  induction models generalizing index with
  | nil => rfl
  | cons model rest ih =>
    have hfirst : run.reuse now index model types = (none, types) := by
      rw [reuse, h]
    rw [reuseAll, hfirst]
    dsimp only
    rw [ih]
    rfl

/-- Without caches a call is a run that reuses nothing. -/
theorem synthesizeCached_disabled (now : Nat) (models : List ModelDecl) :
    (run.synthesizeCached now models .disabled).1.map Shared.value = run.synthesize models := by
  have hmisses := @reuseAll_of_none run now .disabled (fun _ => rfl) 0 models
  have hbuild : (run.build now models .disabled).1 = run.synthesize models := by
    rw [build, synthesize, hmisses]
    cases checkKeys [] models with
    | error e => rfl
    | ok _ =>
      dsimp only
      change _ = run.assemble _ >>= _
      cases run.assemble (models.map fun model => (model, none)) with
      | error e => rfl
      | ok built =>
        obtain ⟨graph, fresh⟩ := built
        change graph.validate.map (fun _ => graph) = graph.validate >>= fun _ => pure graph
        cases graph.validate <;> rfl
  rw [← hbuild]
  change Except.map _ (Except.map _ (run.build now models .disabled).1) = _
  cases (run.build now models .disabled).1 <;> rfl

end Run

/-! ### Sessions -/

section Forget

variable {α : Type} (expired : String → Bool)

/-- Drops the entries under some keys. -/
def AnyStore.forget : AnyStore α → AnyStore α
  | .ttl store => .ttl { store with entries := store.entries.filter fun key _ => !expired key }
  | .null store => .null store
  | .broken store => .broken store

/-- Drops the entries under some keys. -/
def CacheLayer.forget (layer : AnyLayer α) : AnyLayer α :=
  { layer with store := layer.store.map (AnyStore.forget expired) }

theorem CacheLayer.Holds.forget {P : String → α → Prop} {layer : AnyLayer α} (h : layer.Holds P) :
    (layer.forget expired).Holds P := by
  intro store hstore
  obtain ⟨old, hold, rfl⟩ := Option.map_eq_some_iff.1 hstore
  have hholds := h old hold
  cases old with
  | ttl store =>
    intro key entry hget
    have hmem := List.mem_filter.1 (OrderedMap.get?_eq_some_iff.1 hget)
    exact hholds key entry (OrderedMap.get?_eq_some_iff.2 hmem.1)
  | null | broken => exact trivial

end Forget

namespace Run

variable (run : Run)

/-- What happens to the caches of a caller: a call, or entries that expire. Which entries expire
depends on the times of calls, and on what else extends the life of entries, so any may. -/
inductive Step where
  | call (call : Call)
  | expire (types schemas : String → Bool)

/-- The models of the calls among some steps. -/
def asked (steps : List Step) : List (List ModelDecl) :=
  steps.filterMap fun
    | .call call => some call.models
    | .expire _ _ => none

/-- The caches that a step leaves. -/
def perform (caches : Caches) : Step → Caches
  | .call call => ((run.numbered call.number).synthesizeCached call.now call.models caches).2
  | .expire types schemas =>
    { caches with types := caches.types.forget types, schemas := caches.schemas.forget schemas }

/-- The caches that steps leave. -/
def after (steps : List Step) (caches : Caches) : Caches := steps.foldl run.perform caches

theorem CachesFor.perform {run : Run} {calls : List (List ModelDecl)} (h : run.Consistent calls)
    {caches : Caches} (hcaches : run.CachesFor calls caches) {step : Step}
    (hstep : asked [step] ⊆ calls) : run.CachesFor calls (run.perform caches step) := by
  cases step with
  | expire types schemas => exact ⟨hcaches.types.forget types, hcaches.schemas.forget schemas⟩
  | call call =>
    have hcall : call.models ∈ calls := hstep (List.mem_singleton_self _)
    obtain ⟨-, -, hnext⟩ := (h.numbered call.number).synthesizeCached hcall call.now
      (hcaches.numbered call.number)
    exact hnext.numbered run.number

/-- The caches of a caller that keeps to its models hold only what stands for them. -/
theorem Consistent.after {run : Run} {calls : List (List ModelDecl)} (h : run.Consistent calls)
    {earlier : List Step} (hearlier : asked earlier ⊆ calls) {caches : Caches}
    (hcaches : run.CachesFor calls caches) : run.CachesFor calls (run.after earlier caches) := by
  induction earlier generalizing caches with
  | nil => exact hcaches
  | cons step rest ih =>
    have hasked : asked (step :: rest) = asked [step] ++ asked rest :=
      List.filterMap_append (l := [step])
    rw [hasked, List.append_subset] at hearlier
    exact ih hearlier.2 (hcaches.perform h hearlier.1)

/-! ### Transparent calls -/

/-- What a call gets from the caches that earlier steps leave. -/
def answer (earlier : List Step) (call : Call) (caches : Caches) :
    Except SynthError (Shared TypeGraph) :=
  ((run.numbered call.number).synthesizeCached call.now call.models (run.after earlier caches)).1

/-- A call succeeds through the caches that earlier steps leave just when it does without any caches,
and the two graphs are alike. -/
def Transparent (earlier : List Step) (call : Call) (start : Nat) (settings : CacheSettings) : Prop :=
  let cached := run.answer earlier call (.ofSettings start settings)
  let plain := run.answer [] call .disabled
  ((∃ graph, cached = .ok graph) ↔ ∃ graph, plain = .ok graph) ∧
    ∀ graph other, cached = .ok graph → plain = .ok other → graph.value.Alike other.value

/-- A call that is answered as without caches succeeds when synthesis does, with a graph like that of
synthesis. -/
theorem Transparent.synthesize {run : Run} {earlier : List Step} {call : Call} {start : Nat}
    {settings : CacheSettings} (h : run.Transparent earlier call start settings) :
    ((∃ graph, run.answer earlier call (.ofSettings start settings) = .ok graph) ↔
      ∃ graph, (run.numbered call.number).synthesize call.models = .ok graph) ∧
    ∀ graph other, run.answer earlier call (.ofSettings start settings) = .ok graph →
      (run.numbered call.number).synthesize call.models = .ok other → graph.value.Alike other := by
  obtain ⟨hiff, halike⟩ := h
  rw [hiff, ← (run.numbered call.number).synthesizeCached_disabled call.now call.models]
  refine ⟨⟨fun ⟨graph, hok⟩ => ?_, fun ⟨graph, hok⟩ => ?_⟩, fun graph other hok hplain => ?_⟩
  · exact ⟨graph.value, map_eq_ok_iff.2 ⟨graph, hok, rfl⟩⟩
  · obtain ⟨shared, hshared, -⟩ := map_eq_ok_iff.1 hok
    exact ⟨shared, hshared⟩
  · obtain ⟨shared, hshared, rfl⟩ := map_eq_ok_iff.1 hplain
    exact halike graph shared hok hshared

/-- Whatever a consistent caller asked for before, and whatever has expired since, its caches are
transparent. -/
theorem synthesizeCached_alike (earlier : List Step) (call : Call)
    (h : run.Consistent (asked earlier ++ [call.models])) (start : Nat) (settings : CacheSettings) :
    run.Transparent earlier call start settings := by
  have hcall : call.models ∈ asked earlier ++ [call.models] :=
    List.mem_append_right _ (List.mem_singleton_self _)
  have hcaches := (h.after (List.subset_append_left ..)
    (run.cachesFor_ofSettings _ start settings)).numbered call.number
  have hnumbered := h.numbered call.number
  obtain ⟨hcached, hexists, -⟩ := hnumbered.synthesizeCached hcall call.now hcaches
  obtain ⟨hplain, hexists', -⟩ := hnumbered.synthesizeCached hcall call.now
    ((run.numbered call.number).cachesFor_disabled _)
  refine ⟨⟨fun ⟨graph, hok⟩ => ?_, fun ⟨graph, hok⟩ => ?_⟩, fun graph other hok hok' => ?_⟩
  · exact hexists' (hcached graph hok).keys (hcached graph hok).shows (hcached graph hok).completes
  · exact hexists (hplain graph hok).keys (hplain graph hok).shows (hplain graph hok).completes
  · exact (hcached graph hok).faithful.alike (hplain other hok').faithful

end Run

namespace ModelDecl

/-- A model with a shape of its own and a place. -/
def resident : ModelDecl where
  key := "residents"
  name := "resident"
  fields := [.nested "pass" [.enumeration "state" ["valid", "lost"]],
    .embedded "home" "place" [.scalar "street" .string, .reference "owner" "resident"]]

/-- A model whose places are those of a resident. -/
def depot : ModelDecl where
  key := "depots"
  name := "depot"
  fields := [.references "staff" "resident",
    .list "sites" (.embedded "place" [.scalar "street" .string, .reference "owner" "resident"])]

end ModelDecl

/-- A resident and a depot share their places, so they are not independent. A caller may still ask for
the two of them, then for one alone, while the types of the other one expire, and then for both in
another order. -/
theorem Run.synthesizeCached_resident_depot :
    let run : Run := ⟨{}, ⟨0⟩, 0⟩
    let earlier : List Step := [.call ⟨0, 1, [.resident, .depot]⟩, .call ⟨5, 2, [.resident]⟩,
      .expire (· = "depots") fun _ => false]
    ¬ run.Apart .resident .depot ∧ ∃ graph other,
      run.answer earlier ⟨10, 3, [.depot, .resident]⟩ (.ofSettings 0 {}) = .ok graph ∧
      run.answer [] ⟨10, 3, [.depot, .resident]⟩ .disabled = .ok other ∧
      graph.value.Alike other.value := by
  intro run earlier
  have hconsistent : run.Consistent [[.resident, .depot], [.resident], [.depot, .resident]] :=
    Consistent.of_modular (by decide +kernel) (by decide +kernel) (by decide +kernel)
  obtain ⟨hiff, halike⟩ :=
    run.synthesizeCached_alike earlier ⟨10, 3, [.depot, .resident]⟩ hconsistent 0 {}
  obtain ⟨other, hplain⟩ : ∃ other, run.answer [] ⟨10, 3, [.depot, .resident]⟩ .disabled = .ok other :=
    exists_eq_ok (by decide +kernel)
  obtain ⟨graph, hcached⟩ := hiff.2 ⟨other, hplain⟩
  refine ⟨fun hapart => ?_, graph, other, hcached, hplain, halike graph other hcached hplain⟩
  exact absurd hapart.embedded (by decide +kernel)

/-! ### Sessions that deviate -/

/-- What a name stands for when a model of a graph mentions it. -/
def TypeGraph.mentioned? (graph : TypeGraph) (name : String) : Option NamedType :=
  if graph.models.values.any fun root => root.value.mentions.contains name then graph.type? name
  else none

theorem TypeGraph.Alike.keys_eq {graph other : TypeGraph} (h : graph.Alike other) :
    graph.models.keys = other.models.keys := by
  have hkeys := congrArg OrderedMap.keys h.models
  rwa [OrderedMap.keys_map, OrderedMap.keys_map] at hkeys

theorem TypeGraph.Alike.mentioned?_eq {graph other : TypeGraph} (h : graph.Alike other)
    (name : String) : graph.mentioned? name = other.mentioned? name := by
  have hroots : ∀ graph : TypeGraph,
      (graph.models.values.any fun root => root.value.mentions.contains name) =
        (graph.models.map Shared.value).values.any fun root => root.mentions.contains name := by
    intro graph
    rw [OrderedMap.values_map, List.any_map]
    rfl
  rw [mentioned?, mentioned?, hroots other, ← h.models, ← hroots graph]
  split
  · next hany =>
    obtain ⟨root, hroot, hmention⟩ := List.any_eq_true.1 hany
    exact h.types name ⟨root, hroot, .start (by simpa using hmention)⟩
  · rfl

/-- What alike graphs have in common is the same with the caches and without any. -/
theorem Run.Transparent.map_eq {run : Run} {earlier : List Step} {call : Call} {start : Nat}
    {settings : CacheSettings} (h : run.Transparent earlier call start settings) {α : Type}
    {view : TypeGraph → α} (hview : ∀ graph other, graph.Alike other → view graph = view other) :
    (run.answer earlier call (.ofSettings start settings)).toOption.map
        (fun graph => view graph.value) =
      (run.answer [] call .disabled).toOption.map fun graph => view graph.value := by
  obtain ⟨hiff, halike⟩ := h
  cases hcached : run.answer earlier call (.ofSettings start settings) with
  | error e =>
    cases hplain : run.answer [] call .disabled with
    | error e => rfl
    | ok other =>
      obtain ⟨graph, hok⟩ := hiff.2 ⟨other, hplain⟩
      cases hcached.symm.trans hok
  | ok graph =>
    obtain ⟨other, hplain⟩ := hiff.1 ⟨graph, hcached⟩
    rw [hplain]
    exact congrArg some (hview _ _ (halike graph other hcached hplain))

namespace ModelDecl

/-- A model that lays the shared shape of a place out first. -/
def person : ModelDecl where
  key := "people"
  name := "person"
  fields := [.embedded "home" "place" [.scalar "street" .string]]

/-- A model that declares the shape of a place in its own way. -/
def shop : ModelDecl where
  key := "shops"
  name := "shop"
  fields := [.embedded "site" "place" [.scalar "zip" .string]]

/-- A model with a nested type of two words below a name of one. -/
def bus : ModelDecl where
  key := "buses"
  name := "bus"
  fields := [.nested "stopSign" [.scalar "colour" .string]]

/-- A model with a nested type of one word below a name of two. -/
def busStop : ModelDecl where
  key := "busStops"
  name := "busStop"
  fields := [.nested "sign" [.scalar "text" .string]]

/-- A model with places that many guests visit. -/
def host : ModelDecl where
  key := "hosts"
  name := "host"
  fields := [.embedded "home" "place" [.references "visitors" "guest"]]

/-- A model with the same places under another name. -/
def guest : ModelDecl where
  key := "guests"
  name := "guest"
  fields := [.embedded "site" "place" [.references "visitors" "guest"]]

/-- A model that others refer to. -/
def station : ModelDecl where
  key := "stations"
  name := "station"
  fields := [.scalar "label" .string]

/-- A model with a reference to a name that two models may stand for. -/
def ride : ModelDecl where
  key := "rides"
  name := "ride"
  fields := [.reference "from" "old-town"]

/-- A model that makes one type twice, so that the first one's reference is lost. -/
def route : ModelDecl where
  key := "routes"
  name := "route"
  fields := [.nested "to-do" [.reference "stop" "station"],
    .nested "to_do" [.scalar "note" .string]]

/-- A model with two fields of one output name, of which the first one's types are left over. -/
def form : ModelDecl where
  key := "forms"
  name := "form"
  fields := [.nested "to-do" [.enumeration "kind" ["open"],
      .nested "kindEnum" [.scalar "note" .string]],
    .scalar "to_do" .string]

/-- A model with a place that it does not get to. -/
def tour : ModelDecl where
  key := "tours"
  name := "tour"
  fields := [.embedded "to-do" "place" [.reference "stop" "station"],
    .nested "to_do" [.scalar "stop" .string]]

/-- A model that lays out the same place and does get to it. -/
def stopover : ModelDecl where
  key := "stopovers"
  name := "stopover"
  fields := [.embedded "at" "place" [.reference "stop" "station"]]

end ModelDecl

/-- Steps of a steady caller after which a call is not answered as without caches. -/
def Run.Deviates (earlier : List Step) (models : List ModelDecl) : Prop :=
  Run.Steady (asked earlier ++ [models]) ∧
    ¬ (Run.mk {} ⟨0⟩ 0).Transparent earlier ⟨10, 2, models⟩ 0 {}

theorem Run.deviates_of_ne {earlier : List Step} {models : List ModelDecl} {α : Type}
    {view : TypeGraph → α} (hview : ∀ graph other, graph.Alike other → view graph = view other)
    (hsteady : Run.Steady (asked earlier ++ [models]))
    (h : ((Run.mk {} ⟨0⟩ 0).answer earlier ⟨10, 2, models⟩ (.ofSettings 0 {})).toOption.map
        (fun graph => view graph.value) ≠
      ((Run.mk {} ⟨0⟩ 0).answer [] ⟨10, 2, models⟩ .disabled).toOption.map
        fun graph => view graph.value) :
    Run.Deviates earlier models :=
  ⟨hsteady, fun htransparent => h (htransparent.map_eq hview)⟩

/-- Being steady is not enough. What a call was given before shows when two models declare a shared
shape in two ways; when only some of the types have expired, and two models make one type, or share a
shape with a list of references, which is named after the first model that has it; when a reference is
lost in a model that makes a type twice, or its target is another model of the same output name; when
types that are left over mention something in vain, or keep a slot; and when two lists of models have
one key. -/
theorem Run.synthesizeCached_deviates :
    Run.Deviates [.call ⟨0, 1, [.person, .shop]⟩] [.shop] ∧
    Run.Deviates [.call ⟨0, 1, [.bus, .busStop]⟩, .expire (· = "buses") fun _ => true]
      [.bus, .busStop] ∧
    Run.Deviates [.call ⟨0, 1, [.host, .guest]⟩, .expire (· = "guests") fun _ => true]
      [.host, .guest] ∧
    Run.Deviates [.call ⟨0, 1, [.route, .station]⟩] [.route] ∧
    Run.Deviates [.call ⟨0, 1, [.ride, { ModelDecl.station with name := "old-town" }]⟩]
      [.ride, { ModelDecl.station with key := "towns", name := "old_town" }] ∧
    Run.Deviates [.call ⟨0, 1, [.form]⟩] [.form] ∧
    Run.Deviates [.call ⟨0, 1, [.stopover, .tour, .station]⟩] [.tour, .station] ∧
    Run.Deviates [.call ⟨0, 1, [{ ModelDecl.station with key := "stations\x00towns" }]⟩]
      [.station, { ModelDecl.station with key := "towns", name := "town" }] := by
  have hplace := fun graph other (h : TypeGraph.Alike graph other) => h.mentioned?_eq "Place"
  have hsign := fun graph other (h : TypeGraph.Alike graph other) => h.mentioned?_eq "busStopSign"
  have hkeys := fun graph other (h : TypeGraph.Alike graph other) => h.keys_eq
  refine ⟨deviates_of_ne hplace ?_ ?_, deviates_of_ne hsign ?_ ?_, deviates_of_ne hplace ?_ ?_,
    deviates_of_ne hkeys ?_ ?_, deviates_of_ne hkeys ?_ ?_, deviates_of_ne hkeys ?_ ?_,
    deviates_of_ne hkeys ?_ ?_, deviates_of_ne hkeys ?_ ?_⟩ <;> decide +kernel

end ModelGraph
