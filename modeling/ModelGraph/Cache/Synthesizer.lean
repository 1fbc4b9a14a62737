import ModelGraph.Cache.Key
import ModelGraph.Cache.Layer
import ModelGraph.Cache.Settings
import ModelGraph.Graph.Synthesis

/-!
# Synthesis through caches

A caller synthesizes graphs through three layers: declared models, the types of single models, and
whole graphs. Cached types that carry another caller's mark are reused under a mark of the caller's
own; a cached graph with another mark is built anew.

## Main definitions

- `Caches` — the three layers
- `Run.build` — a graph with the types of earlier runs reused
- `Run.synthesizeCached` — a graph, cached as a whole
- `Run.loadModels` — declared models through their cache
-/

namespace ModelGraph

/-- A layer over a store of any kind. -/
abbrev AnyLayer (α : Type) := CacheLayer (AnyStore α)

/-- The layers of a caller. -/
structure Caches where
  /-- Declared models, by key. -/
  descriptors : AnyLayer (Shared ModelDecl)
  /-- The types of single models, by cache identity. -/
  types : AnyLayer ModelTypes
  /-- Whole graphs, by the key of their models. -/
  schemas : AnyLayer (Shared TypeGraph)

namespace Caches

/-- No caching at all. -/
def disabled : Caches := ⟨.disabled, .disabled, .disabled⟩

/-- A layer over a store with the given lifetime in seconds. -/
def layerFor {α : Type} (now seconds : Nat) : AnyLayer α :=
  .ofStore (.ttl (.new now (seconds * 1000)))

/-- The layers that settings ask for. -/
def ofSettings (now : Nat) (settings : CacheSettings) : Caches :=
  if settings.enabled then
    ⟨layerFor now settings.descriptorTtl, layerFor now settings.typeTtl,
      layerFor now settings.schemaTtl⟩
  else disabled

end Caches

namespace Run

/-- The types to reuse for a model, if there are any. Types with another caller's mark are given
this caller's, and are stored so. `index` is the model's place in the run. -/
def reuse (run : Run) (now index : Nat) (model : ModelDecl) (types : AnyLayer ModelTypes) :
    Option ModelTypes × AnyLayer ModelTypes :=
  let key := model.cacheIdentity
  let (hit, types) := types.get? now key
  match hit with
  | none => (none, types)
  | some cached =>
    if cached.root.value.hasIdentity run.identity then (some cached, types)
    else
      let rebound := cached.withIdentity run.identity ⟨run.number, .rebound index⟩
      (some rebound, types.set now key rebound)

/-- The models of a run, each with the types to reuse for it. -/
def reuseAll (run : Run) (now : Nat) : (index : Nat) → List ModelDecl → AnyLayer ModelTypes →
    List (ModelDecl × Option ModelTypes) × AnyLayer ModelTypes
  | _, [], types => ([], types)
  | index, model :: rest, types =>
    let (found, types) := run.reuse now index model types
    let (others, types) := reuseAll run now (index + 1) rest types
    ((model, found) :: others, types)

/-- The cache key of freshly built types: the cache identity of the first model of their name. -/
def typesKey (models : List ModelDecl) (types : ModelTypes) : String :=
  match models.find? fun model => model.name = types.key with
  | some model => model.cacheIdentity
  | none => types.key

/-- The graph of models, with the types of earlier runs reused. Freshly built types are stored
before the graph is validated. -/
def build (run : Run) (now : Nat) (models : List ModelDecl) (types : AnyLayer ModelTypes) :
    Except SynthError TypeGraph × AnyLayer ModelTypes :=
  match checkKeys [] models with
  | .error e => (.error e, types)
  | .ok () =>
    let (entries, types) := run.reuseAll now 0 models types
    match run.assemble entries with
    | .error e => (.error e, types)
    | .ok (graph, fresh) =>
      let types := fresh.foldl (fun types entry => types.set now (typesKey models entry) entry) types
      (graph.validate.map fun _ => graph, types)

/-- The graph of models, from the cache of whole graphs when it has this caller's mark. -/
def synthesizeCached (run : Run) (now : Nat) (models : List ModelDecl) (caches : Caches) :
    Except SynthError (Shared TypeGraph) × Caches :=
  let build (types : AnyLayer ModelTypes) : Except SynthError (Shared TypeGraph) × AnyLayer ModelTypes :=
    let (result, types) := run.build now models types
    (result.map fun graph => ⟨⟨run.number, .graph⟩, graph⟩, types)
  let (result, schemas, types) :=
    caches.schemas.getOrBuild now (schemaKey models) (fun graph => graph.value.identity = run.identity)
      build caches.types
  (result, { caches with schemas, types })

/-- The declared model of a key, through the cache of declared models. -/
def loadModel (run : Run) (now index : Nat) (source : ModelSet) (key : String)
    (descriptors : AnyLayer (Shared ModelDecl)) :
    Except String ModelDecl × AnyLayer (Shared ModelDecl) :=
  let build (_ : Unit) : Except String (Shared ModelDecl) × Unit :=
    match source.find? key with
    | some model => (.ok ⟨⟨run.number, .description index⟩, model⟩, ())
    | none => (.error (ModelSet.notFound key), ())
  let (result, descriptors, _) := descriptors.getOrBuild now key (fun _ => true) build ()
  (result.map Shared.value, descriptors)

/-- The declared models of keys in order, up to the first that fails. -/
def loadKeys (run : Run) (now : Nat) (source : ModelSet) : (index : Nat) → List String →
    AnyLayer (Shared ModelDecl) → Except String (List ModelDecl) × AnyLayer (Shared ModelDecl)
  | _, [], descriptors => (.ok [], descriptors)
  | index, key :: rest, descriptors =>
    match run.loadModel now index source key descriptors with
    | (.error e, descriptors) => (.error e, descriptors)
    | (.ok model, descriptors) =>
      let (others, descriptors) := loadKeys run now source (index + 1) rest descriptors
      (others.map (model :: ·), descriptors)

/-- Every declared model that a source offers. -/
def loadModels (run : Run) (now : Nat) (source : ModelSet) (caches : Caches) :
    Except String (List ModelDecl) × Caches :=
  let (result, descriptors) := run.loadKeys now source 0 source.keys caches.descriptors
  (result, { caches with descriptors })

end Run

end ModelGraph
