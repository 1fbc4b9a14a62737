import ModelGraph.Cache.Store

/-!
# Cache layers

A layer stands in front of a store and never fails: a store's failure counts as a miss. It returns
the value under a key, or builds and stores it, and it can refuse a stored value, which then counts
as a miss too. A disabled layer has no store and builds every time.

While a value is built its key is in flight: callers of the same key share one lock and wait for it.
The last caller that holds the lock of a key removes it.

## Main definitions

- `CacheLayer` — a layer
- `CacheLayer.get?`, `CacheLayer.set`, `CacheLayer.touch`
- `CacheLayer.getOrBuild` — the stored value, or a new one
-/

namespace ModelGraph

/-- A layer in front of a store; without a store it is disabled. -/
structure CacheLayer (σ : Type) where
  store : Option σ
  /-- For each key whose value is being built, how many callers hold its lock. -/
  inFlight : OrderedMap String Nat := ∅

namespace CacheLayer

variable {σ α ε ρ : Type} [CacheStore σ α]

/-- A layer in front of a store. -/
def ofStore (store : σ) : CacheLayer σ := { store := some store }

/-- A layer without a store. -/
def disabled : CacheLayer σ := { store := none }

/-- Whether the layer has a store. -/
def isEnabled (layer : CacheLayer σ) : Bool := layer.store.isSome

/-- The stored value under a key. -/
def get? (now : Nat) (key : String) (layer : CacheLayer σ) : Option α × CacheLayer σ :=
  match layer.store with
  | none => (none, layer)
  | some store =>
    let (result, store) := CacheStore.get now key store
    (result.toOption.join, { layer with store := some store })

/-- Stores a value. -/
def set (now : Nat) (key : String) (value : α) (layer : CacheLayer σ) : CacheLayer σ :=
  match layer.store with
  | none => layer
  | some store => { layer with store := some (CacheStore.set now key value store).2 }

/-- Extends the lifetime of the value under a key; tells whether there is one. -/
def touch (now : Nat) (key : String) (layer : CacheLayer σ) : Bool × CacheLayer σ :=
  match layer.store with
  | none => (false, layer)
  | some store =>
    let (result, store) := CacheStore.touch now key store
    (result.toOption.getD false, { layer with store := some store })

/-- A caller takes the lock of a key, which is new where nobody holds it. -/
def enter (key : String) (layer : CacheLayer σ) : CacheLayer σ :=
  { layer with inFlight :=
      layer.inFlight.insert key ((layer.inFlight.get? key).getD 0 + 1) }

/-- The locks once a caller has let go of the lock of a key. -/
def released (key : String) (locks : OrderedMap String Nat) : OrderedMap String Nat :=
  match locks.get? key with
  | some holders => if holders ≤ 1 then locks.erase key else locks.insert key (holders - 1)
  | none => locks

/-- A caller lets go of the lock of a key. -/
def leave (key : String) (layer : CacheLayer σ) : CacheLayer σ :=
  { layer with inFlight := released key layer.inFlight }

/-- The stored value under a key when `accept` allows it, or else what `build` makes, which is then
stored. `build` acts on the state `world`. The key is looked up again once it is in flight, since
another caller may have been ahead. -/
def getOrBuild (now : Nat) (key : String) (accept : α → Bool) (build : ρ → Except ε α × ρ)
    (layer : CacheLayer σ) (world : ρ) : Except ε α × CacheLayer σ × ρ :=
  if layer.isEnabled then
    let (hit, layer) := layer.get? now key
    match hit.filter accept with
    | some value => (.ok value, layer, world)
    | none =>
      let (hit, layer) := (layer.enter key).get? now key
      match hit.filter accept with
      | some value => (.ok value, layer.leave key, world)
      | none =>
        match build world with
        | (.ok value, world) => (.ok value, (layer.set now key value).leave key, world)
        | (.error e, world) => (.error e, layer.leave key, world)
  else
    let (result, world) := build world
    (result, layer, world)

end CacheLayer

end ModelGraph
