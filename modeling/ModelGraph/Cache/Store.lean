import ModelGraph.OrderedMap

/-!
# Stores with expiry

A store keeps values under text keys. The store of this library forgets a value when it was neither
written nor read for a whole lifetime: every hit starts the lifetime anew. Writes sweep expired
entries at most once per lifetime.

Time is a number of milliseconds that callers pass along.

## Main definitions

- `CacheStore` — what a store can do; every operation may fail
- `TtlStore` — a store with sliding expiry
- `NullStore`, `BrokenStore` — stores that hold nothing, and that always fail
- `AnyStore` — one of these
-/

namespace ModelGraph

/-- A failure of a store. -/
structure StoreError where
  reason : String
deriving DecidableEq, Repr

/-- Stores `σ` of values `α`. Every operation is given the time, and may fail. -/
class CacheStore (σ : Type) (α : outParam Type) where
  /-- The value under a key. A hit extends the value's lifetime. -/
  get : Nat → String → σ → Except StoreError (Option α) × σ
  /-- Writes a value. -/
  set : Nat → String → α → σ → Except StoreError Unit × σ
  /-- Extends the lifetime of a value without reading it; tells whether there is one. -/
  touch : Nat → String → σ → Except StoreError Bool × σ

/-- A value and the time from which it is forgotten. -/
structure Expiring (α : Type) where
  value : α
  expiresAt : Nat
deriving Repr

/-- A store with sliding expiry. -/
structure TtlStore (α : Type) where
  /-- The lifetime of an entry, in milliseconds. -/
  ttl : Nat
  /-- The time from which a write sweeps. -/
  nextSweep : Nat
  entries : OrderedMap String (Expiring α)

namespace TtlStore

variable {α : Type}

/-- The usual lifetime: an hour. -/
def defaultTtl : Nat := 3600 * 1000

/-- An empty store, made at the given time. -/
def new (now ttl : Nat) : TtlStore α := { ttl, nextSweep := now + ttl, entries := ∅ }

/-- The number of entries, expired ones included. -/
def size (store : TtlStore α) : Nat := store.entries.size

/-- Whether there is no entry. -/
def isEmpty (store : TtlStore α) : Bool := store.entries.isEmpty

/-- Drops every expired entry. -/
def purge (now : Nat) (store : TtlStore α) : TtlStore α :=
  { store with entries := store.entries.filter fun _ entry => decide (now < entry.expiresAt) }

/-- Drops expired entries when that is due. -/
def sweep (now : Nat) (store : TtlStore α) : TtlStore α :=
  if now < store.nextSweep then store
  else purge now { store with nextSweep := now + store.ttl }

/-- Looks a key up: a hit extends its lifetime, and an expired entry goes. -/
def refresh (now : Nat) (key : String) (store : TtlStore α) : Option α × TtlStore α :=
  match store.entries.get? key with
  | none => (none, store)
  | some entry =>
    if now < entry.expiresAt then
      (some entry.value,
        { store with entries := store.entries.insert key { entry with expiresAt := now + store.ttl } })
    else (none, { store with entries := store.entries.erase key })

/-- Writes a value, after a sweep when one is due. -/
def write (now : Nat) (key : String) (value : α) (store : TtlStore α) : TtlStore α :=
  let swept := store.sweep now
  { swept with entries := swept.entries.insert key ⟨value, now + store.ttl⟩ }

instance : CacheStore (TtlStore α) α where
  get now key store :=
    let (hit, store) := store.refresh now key
    (.ok hit, store)
  set now key value store := (.ok (), store.write now key value)
  touch now key store :=
    let (hit, store) := store.refresh now key
    (.ok hit.isSome, store)

end TtlStore

/-- A store that holds nothing. -/
structure NullStore (α : Type) where

instance {α : Type} : CacheStore (NullStore α) α where
  get _ _ store := (.ok none, store)
  set _ _ _ store := (.ok (), store)
  touch _ _ store := (.ok false, store)

/-- A store that always fails. -/
structure BrokenStore (α : Type) where

instance {α : Type} : CacheStore (BrokenStore α) α where
  get _ _ store := (.error ⟨"store is down"⟩, store)
  set _ _ _ store := (.error ⟨"store is down"⟩, store)
  touch _ _ store := (.error ⟨"store is down"⟩, store)

/-- A store of any kind. -/
inductive AnyStore (α : Type) where
  | ttl (store : TtlStore α)
  | null (store : NullStore α)
  | broken (store : BrokenStore α)

instance {α : Type} : CacheStore (AnyStore α) α where
  get now key
    | .ttl store => (CacheStore.get now key store).map id .ttl
    | .null store => (CacheStore.get now key store).map id .null
    | .broken store => (CacheStore.get now key store).map id .broken
  set now key value
    | .ttl store => (CacheStore.set now key value store).map id .ttl
    | .null store => (CacheStore.set now key value store).map id .null
    | .broken store => (CacheStore.set now key value store).map id .broken
  touch now key
    | .ttl store => (CacheStore.touch now key store).map id .ttl
    | .null store => (CacheStore.touch now key store).map id .null
    | .broken store => (CacheStore.touch now key store).map id .broken

end ModelGraph
