import ModelGraph.Cache.Layer
import ModelGraph.Proofs.OrderedMap

/-!
# What caches hold

A property of keys and values that holds of everything that was ever written holds of everything
that is read, whatever expired in between.

## Main definitions

- `TtlStore.Holds`, `AnyStore.Holds`, `CacheLayer.Holds` — all entries have a property

## Main statements

- `CacheLayer.Holds.get?`, `CacheLayer.Holds.set` — reads and writes keep the property
- `CacheLayer.Holds.getOrBuild` — a value that was found has the property, or was just built
- `CacheLayer.get?_foldl_set` — what is written to a new store is found until it expires
-/

namespace ModelGraph

variable {α : Type} {P : String → α → Prop}

namespace TtlStore

/-- Whether all entries, expired ones included, have a property. -/
def Holds (P : String → α → Prop) (store : TtlStore α) : Prop :=
  ∀ key entry, store.entries.get? key = some entry → P key entry.value

theorem holds_new (now ttl : Nat) : (new now ttl : TtlStore α).Holds P := by
  intro key entry hget
  cases hget

variable {store : TtlStore α} (h : store.Holds P) (now : Nat) (key : String)

include h

theorem Holds.purge : (store.purge now).Holds P := by
  intro key entry hget
  have hmem := List.mem_filter.1 (OrderedMap.get?_eq_some_iff.1 hget)
  exact h key entry (OrderedMap.get?_eq_some_iff.2 hmem.1)

theorem Holds.sweep : (store.sweep now).Holds P := by
  rw [TtlStore.sweep]
  split
  · exact h
  · have hlater : Holds P { store with nextSweep := now + store.ttl } := h
    exact hlater.purge now

/-- A value that is found has the property, and so have all that stay. -/
theorem Holds.refresh : (∀ value, (store.refresh now key).1 = some value → P key value) ∧
    (store.refresh now key).2.Holds P := by
  rw [TtlStore.refresh]
  cases hget : store.entries.get? key with
  | none => exact ⟨fun _ hvalue => (by cases hvalue), h⟩
  | some entry =>
    dsimp only
    split
    · refine ⟨fun value hvalue => ?_, fun other found hfound => ?_⟩
      · rw [← Option.some.inj hvalue]
        exact h key entry hget
      · rw [OrderedMap.get?_insert] at hfound
        split at hfound
        · next heq =>
          rw [← Option.some.inj hfound, ← heq]
          exact h key entry hget
        · exact h other found hfound
    · refine ⟨fun _ hvalue => (by cases hvalue), fun other found hfound => ?_⟩
      rw [OrderedMap.get?_erase] at hfound
      split at hfound
      · cases hfound
      · exact h other found hfound

theorem Holds.write {value : α} (hvalue : P key value) : (store.write now key value).Holds P := by
  intro other found hfound
  rw [TtlStore.write, OrderedMap.get?_insert] at hfound
  split at hfound
  · next heq =>
    rw [← Option.some.inj hfound, ← heq]
    exact hvalue
  · exact h.sweep now other found hfound

end TtlStore

namespace AnyStore

/-- Whether all entries of a store have a property. -/
def Holds (P : String → α → Prop) : AnyStore α → Prop
  | .ttl store => store.Holds P
  | .null _ | .broken _ => True

variable {store : AnyStore α} (h : store.Holds P) (now : Nat) (key : String)

include h

theorem Holds.get : (∀ value, (CacheStore.get now key store).1.toOption.join = some value →
      P key value) ∧ (CacheStore.get now key store).2.Holds P := by
  cases store with
  | ttl store => exact TtlStore.Holds.refresh h now key
  | null | broken => exact ⟨fun _ hvalue => (by cases hvalue), trivial⟩

theorem Holds.set {value : α} (hvalue : P key value) :
    (CacheStore.set now key value store).2.Holds P := by
  cases store with
  | ttl store => exact TtlStore.Holds.write h now key hvalue
  | null | broken => exact trivial

end AnyStore

namespace CacheLayer

/-- Whether all entries of a layer have a property. -/
def Holds (P : String → α → Prop) (layer : CacheLayer (AnyStore α)) : Prop :=
  ∀ store, layer.store = some store → store.Holds P

variable {layer : CacheLayer (AnyStore α)}

theorem Holds.imp {Q : String → α → Prop} (h : layer.Holds P)
    (himp : ∀ key value, P key value → Q key value) : layer.Holds Q := by
  intro store hstore
  have hstore := h store hstore
  cases store with
  | ttl store => exact fun key entry hget => himp key entry.value (hstore key entry hget)
  | null | broken => exact trivial

theorem holds_disabled : (disabled : CacheLayer (AnyStore α)).Holds P := by
  intro store hstore
  cases hstore

theorem holds_new (now ttl : Nat) : (ofStore (.ttl (.new now ttl)) : CacheLayer (AnyStore α)).Holds P := by
  intro store hstore
  rw [← Option.some.inj hstore]
  exact TtlStore.holds_new now ttl

section Holds

variable (h : layer.Holds P) (now : Nat) (key : String)

include h

/-- Reads find values with the property, and keep it. -/
theorem Holds.get? : (∀ value, (layer.get? now key).1 = some value → P key value) ∧
    (layer.get? now key).2.Holds P := by
  rw [CacheLayer.get?]
  cases hstore : layer.store with
  | none => exact ⟨fun _ hvalue => (by cases hvalue), h⟩
  | some store =>
    obtain ⟨hget, hholds⟩ := (h store hstore).get now key
    refine ⟨hget, fun other hother => ?_⟩
    rw [← Option.some.inj hother]
    exact hholds

/-- Writing a value with the property keeps it. -/
theorem Holds.set {value : α} (hvalue : P key value) : (layer.set now key value).Holds P := by
  rw [CacheLayer.set]
  cases hstore : layer.store with
  | none => exact h
  | some store =>
    intro other hother
    rw [← Option.some.inj hother]
    exact (h store hstore).set now key hvalue

/-- Writing several values with the property, one after another, keeps it. -/
theorem Holds.foldl_set {β : Type} (key : β → String) (value : β → α) {entries : List β}
    (hentries : ∀ entry ∈ entries, P (key entry) (value entry)) :
    (entries.foldl (fun layer entry => layer.set now (key entry) (value entry)) layer).Holds P := by
  induction entries generalizing layer with
  | nil => exact h
  | cons entry rest ih =>
    obtain ⟨hentry, hrest⟩ := List.forall_mem_cons.1 hentries
    exact ih (h.set now (key entry) hentry) hrest

theorem Holds.enter : (layer.enter key).Holds P := h

theorem Holds.leave : (layer.leave key).Holds P := h

/-- A value with the property is found, or a new one is built. -/
theorem Holds.getOrBuild {ε ρ : Type} {Q : ρ → Prop} (accept : α → Bool)
    (build : ρ → Except ε α × ρ) {world : ρ} (hworld : Q world) (hnew : Q (build world).2)
    (hbuild : ∀ value, (build world).1 = .ok value → P key value) :
    let result := layer.getOrBuild now key accept build world
    (result.1 = (build world).1 ∨
        ∃ value, result.1 = .ok value ∧ accept value = true ∧ P key value) ∧
      result.2.1.Holds P ∧ Q result.2.2 := by
  obtain ⟨hhit, hholds⟩ := h.get? now key
  obtain ⟨hhit', hholds'⟩ := (hholds.enter key).get? now key
  rw [CacheLayer.getOrBuild]
  by_cases henabled : layer.isEnabled
  · rw [if_pos henabled]
    dsimp only
    split
    · next value hfound =>
      obtain ⟨hsome, haccept⟩ := Option.filter_eq_some_iff.1 hfound
      exact ⟨.inr ⟨value, rfl, haccept, hhit value hsome⟩, hholds, hworld⟩
    · split
      · next value hfound =>
        obtain ⟨hsome, haccept⟩ := Option.filter_eq_some_iff.1 hfound
        exact ⟨.inr ⟨value, rfl, haccept, hhit' value hsome⟩, hholds'.leave key, hworld⟩
      · split
        · next value world' hbuilt =>
          rw [hbuilt] at hnew hbuild ⊢
          exact ⟨.inl rfl, (hholds'.set now key (hbuild value rfl)).leave key, hnew⟩
        · next e world' hbuilt =>
          rw [hbuilt] at hnew ⊢
          exact ⟨.inl rfl, hholds'.leave key, hnew⟩
  · rw [if_neg henabled]
    exact ⟨.inl rfl, h, hnew⟩

end Holds

end CacheLayer

/-! ### New stores -/

namespace TtlStore

/-- Writing to a store whose entries were all just written drops none of them. -/
theorem entries_write {now ttl : Nat} (httl : 0 < ttl) {store : TtlStore α} (hstore : store.ttl = ttl)
    (hentries : ∀ entry ∈ store.entries.values, entry.expiresAt = now + ttl) (key : String)
    (value : α) :
    (store.write now key value).entries = store.entries.insert key ⟨value, now + ttl⟩ ∧
      (store.write now key value).ttl = ttl := by
  have hpurge : (store.purge now).entries = store.entries := by
    refine OrderedMap.ext_entries (List.filter_eq_self.2 fun entry hmem => ?_)
    have hexpires := hentries entry.2 (List.mem_map_of_mem hmem)
    exact decide_eq_true (hexpires ▸ Nat.lt_add_of_pos_right httl)
  have hsweep : (store.sweep now).entries = store.entries ∧ (store.sweep now).ttl = ttl := by
    rw [sweep]
    split
    · exact ⟨rfl, hstore⟩
    · exact ⟨hpurge, hstore⟩
  rw [write, hsweep.1, hsweep.2, hstore]
  exact ⟨rfl, rfl⟩

end TtlStore

namespace CacheLayer

/-- What was written at one time to a layer with a new store is found until it expires, and nothing
else is: under each key the last value. -/
theorem get?_foldl_set {β : Type} (key : β → String) (value : β → α) (entries : List β)
    {start ttl now later : Nat} (hnow : now ≤ later) (hlater : later < now + ttl) (k : String) :
    ((entries.foldl (fun layer entry => layer.set now (key entry) (value entry))
      (ofStore (.ttl (.new start ttl)) : CacheLayer (AnyStore α))).get? later k).1 =
        (OrderedMap.ofList (entries.map fun entry => (key entry, value entry))).get? k := by
  have httl : 0 < ttl := by omega
  obtain ⟨store, hfold, -, hentries⟩ : ∃ store : TtlStore α,
      entries.foldl (fun layer entry => layer.set now (key entry) (value entry))
        (ofStore (.ttl (.new start ttl)) : CacheLayer (AnyStore α)) = ofStore (.ttl store) ∧
      store.ttl = ttl ∧ store.entries =
        (OrderedMap.ofList (entries.map fun entry => (key entry, value entry))).map
          fun value => ⟨value, now + ttl⟩ := by
    induction entries using List.reverseRecOn with
    | nil => exact ⟨_, rfl, rfl, rfl⟩
    | append_singleton init last ih =>
      obtain ⟨store, hfold, hstore, hentries⟩ := ih
      have hexpires : ∀ entry ∈ store.entries.values, entry.expiresAt = now + ttl := by
        intro entry hentry
        rw [hentries, OrderedMap.values_map] at hentry
        obtain ⟨value, -, rfl⟩ := List.mem_map.1 hentry
        rfl
      obtain ⟨hwrite, httl'⟩ :=
        TtlStore.entries_write httl hstore hexpires (key last) (value last)
      rw [List.foldl_append, hfold]
      refine ⟨store.write now (key last) (value last), rfl, httl', ?_⟩
      rw [hwrite, hentries, List.map_append, List.map_singleton, OrderedMap.ofList_append_singleton,
        OrderedMap.map_insert]
  rw [hfold]
  change (store.refresh later k).1 = _
  rw [TtlStore.refresh, hentries, OrderedMap.get?_map]
  cases (OrderedMap.ofList (entries.map fun entry => (key entry, value entry))).get? k with
  | none => rfl
  | some value =>
    dsimp only [Option.map_some]
    rw [if_pos hlater]

/-- A layer with a new store has to build. -/
theorem getOrBuild_new {ε ρ : Type} (start ttl now : Nat) (key : String) (accept : α → Bool)
    (build : ρ → Except ε α × ρ) (world : ρ) :
    let result := (ofStore (.ttl (.new start ttl)) : CacheLayer (AnyStore α)).getOrBuild now key
      accept build world
    result.1 = (build world).1 ∧ result.2.2 = (build world).2 := by
  let layer : CacheLayer (AnyStore α) := ofStore (.ttl (.new start ttl))
  have hmiss : layer.get? now key = (none, layer) := rfl
  have hmiss' : (layer.enter key).get? now key = (none, layer.enter key) := rfl
  rw [show ofStore (.ttl (.new start ttl)) = layer from rfl, getOrBuild,
    if_pos (show layer.isEnabled = true from rfl), hmiss]
  dsimp only [Option.filter]
  rw [hmiss']
  dsimp only [Option.filter]
  split
  · next hbuilt =>
    rw [hbuilt]
    exact ⟨rfl, rfl⟩
  · next hbuilt =>
    rw [hbuilt]
    exact ⟨rfl, rfl⟩

end CacheLayer

end ModelGraph
