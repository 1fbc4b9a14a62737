import ModelGraph.Proofs.Cache.Expiry
import ModelGraph.Proofs.Cache.Identity
import ModelGraph.Proofs.Graph.Outcome

/-!
# What a failed call leaves in the caches

Types are stored while a graph is made, and the graph can still fail afterwards. A call that fails
leaves the cache of whole graphs as it was, but not the types cache: there, it may have given types
of another caller its own mark; and when all references were resolved, so that nothing but the last
check of the graph can fail, it has stored the types that it built. A first caller may have asked for
a model together with the target of its reference, for instance; when the next call asks for that
model and for a new one, but not for the target, then it fails, and the new model's types stay.

What a look-up finds is compared at the time of the call. Since look-ups and writes make a value
last for another lifetime, that takes a clock which does not run backwards: a value that is found
now was written or found before.

## Main definitions

- `CacheLayer.found?` — what a look-up finds
- `CacheLayer.Dated` — a layer whose entries were written or found up to a time
- `CacheLayer.lifetime` — how long a layer keeps what is written to it
- `Run.Marks` — types layers that differ by the mark of a run only
- `Run.built?` — what a run stores before the last check of its graph

## Main statements

- `Run.marks_reuseAll` — what looking up the types of models changes
- `Run.found?_build` — what is found after a graph was built
- `Run.marks_build` — what building a graph changes beside that
- `Run.failed_synthesis` — what a failed call leaves in shared caches
-/

namespace ModelGraph

variable {α : Type}

/-! ### Dated entries -/

namespace TtlStore

/-- Whether all entries were written or found up to a time. -/
def Dated (now : Nat) (store : TtlStore α) : Prop :=
  ∀ key entry, store.entries.get? key = some entry → entry.expiresAt ≤ now + store.ttl

section Dated

variable {store : TtlStore α} {time now : Nat} (h : store.Dated now)

include h

theorem Dated.purge : (store.purge time).Dated now := by
  intro key entry hget
  have hmem := List.mem_filter.1 (OrderedMap.get?_eq_some_iff.1 hget)
  exact h key entry (OrderedMap.get?_eq_some_iff.2 hmem.1)

theorem Dated.sweep : (store.sweep time).Dated now := by
  rw [TtlStore.sweep]
  split
  · exact h
  · have hlater : Dated now { store with nextSweep := time + store.ttl } := h
    exact hlater.purge

theorem Dated.write (htime : time ≤ now) (key : String) (value : α) :
    (store.write time key value).Dated now := by
  intro other entry hget
  rw [TtlStore.write, OrderedMap.get?_insert] at hget
  split at hget
  · rw [← Option.some.inj hget]
    change time + store.ttl ≤ now + (store.sweep time).ttl
    rw [ttl_sweep]
    omega
  · exact h.sweep other entry hget

theorem Dated.refresh (htime : time ≤ now) (key : String) :
    (store.refresh time key).2.Dated now := by
  intro other entry hget
  rw [ttl_refresh]
  rw [TtlStore.refresh] at hget
  split at hget
  · exact h other entry hget
  · split at hget
    · rw [OrderedMap.get?_insert] at hget
      split at hget
      · rw [← Option.some.inj hget]
        exact Nat.add_le_add_right htime _
      · exact h other entry hget
    · rw [OrderedMap.get?_erase] at hget
      split at hget
      · cases hget
      · exact h other entry hget

/-- What is found in a store of dated entries has a lifetime. -/
theorem Dated.ttl_pos {key : String} {value : α} (hvisible : store.visible? now key = some value) :
    0 < store.ttl := by
  rw [visible?] at hvisible
  split at hvisible
  · next entry hget =>
    have hexpires := h key entry hget
    obtain ⟨hlt, -⟩ := Option.ite_none_right_eq_some.1 hvisible
    omega
  · cases hvisible

end Dated

end TtlStore

/-- Whether all entries of a store were written or found up to a time. -/
def AnyStore.Dated (now : Nat) : AnyStore α → Prop
  | .ttl store => store.Dated now
  | .null _ | .broken _ => True

namespace CacheLayer

/-- Whether all entries of a layer were written or found up to a time. -/
def Dated (now : Nat) (layer : AnyLayer α) : Prop :=
  ∀ store, layer.store = some store → store.Dated now

/-- What a look-up finds under a key. -/
def found? (now : Nat) (key : String) (layer : AnyLayer α) : Option α := (layer.get? now key).1

section Dated

variable {layer : AnyLayer α} {time now : Nat}

theorem dated_of_holds (h : layer.Holds fun _ _ => False) : layer.Dated now := by
  intro store hstore
  have hempty := h store hstore
  cases store with
  | ttl store => exact fun key entry hget => absurd (hempty key entry hget) id
  | null | broken => exact trivial

variable (h : layer.Dated now)

include h

theorem Dated.get? (htime : time ≤ now) (key : String) : (layer.get? time key).2.Dated now := by
  rw [CacheLayer.get?]
  cases hstore : layer.store with
  | none => exact h
  | some store =>
    intro other hother
    rw [← Option.some.inj hother]
    have hdated := h store hstore
    cases store with
    | ttl store => exact TtlStore.Dated.refresh hdated htime key
    | null | broken => exact trivial

theorem Dated.set (htime : time ≤ now) (key : String) (value : α) :
    (layer.set time key value).Dated now := by
  rw [CacheLayer.set]
  cases hstore : layer.store with
  | none => exact h
  | some store =>
    intro other hother
    rw [← Option.some.inj hother]
    have hdated := h store hstore
    cases store with
    | ttl store => exact TtlStore.Dated.write hdated htime key value
    | null | broken => exact trivial

theorem Dated.foldl_set {β : Type} (htime : time ≤ now) (key : β → String) (value : β → α)
    (entries : List β) :
    (entries.foldl (fun layer entry => layer.set time (key entry) (value entry))
      layer).Dated now := by
  induction entries generalizing layer with
  | nil => exact h
  | cons entry rest ih => exact ih (h.set htime (key entry) (value entry))

theorem Dated.purge (time : Nat) : (layer.purge time).Dated now := by
  intro store hstore
  obtain ⟨old, hold, rfl⟩ := Option.map_eq_some_iff.1 hstore
  have hdated := h old hold
  cases old with
  | ttl store => exact TtlStore.Dated.purge hdated
  | null | broken => exact trivial

end Dated

theorem found?_ttl {store : TtlStore α} {locks : OrderedMap String Nat} {now : Nat} {key : String} :
    found? now key ⟨some (.ttl store), locks⟩ = store.visible? now key :=
  TtlStore.fst_refresh

theorem found?_enter {layer : AnyLayer α} {now : Nat} {key other : String} :
    (layer.enter key).found? now other = layer.found? now other := by
  obtain ⟨_ | store, locks⟩ := layer <;> rfl

theorem found?_leave {layer : AnyLayer α} {now : Nat} {key other : String} :
    (layer.leave key).found? now other = layer.found? now other := by
  obtain ⟨_ | store, locks⟩ := layer <;> rfl

/-- A look-up does not change what others find. -/
theorem Dated.found?_get? {layer : AnyLayer α} {now : Nat} (h : layer.Dated now)
    (key other : String) : (layer.get? now key).2.found? now other = layer.found? now other := by
  obtain ⟨_ | store, locks⟩ := layer
  · rfl
  · cases store with
    | null | broken => rfl
    | ttl store =>
      change found? now other ⟨some (.ttl (store.refresh now key).2), locks⟩ = _
      rw [found?_ttl, found?_ttl, TtlStore.visible?_refresh]
      split
      · next heq =>
        rw [← heq]
        cases hvisible : store.visible? now key with
        | none => exact ite_self none
        | some value =>
          have hpos : 0 < store.ttl := TtlStore.Dated.ttl_pos (h _ rfl) hvisible
          exact if_pos (by omega)
      · rfl

/-- How long a layer keeps what is written to it. -/
def lifetime (layer : AnyLayer α) : Nat :=
  match layer.store with
  | some (.ttl store) => store.ttl
  | _ => 0

section Lifetime

variable {layer : AnyLayer α} (now : Nat)

theorem lifetime_get? (key : String) : (layer.get? now key).2.lifetime = layer.lifetime := by
  obtain ⟨_ | store, locks⟩ := layer
  · rfl
  · cases store with
    | null | broken => rfl
    | ttl store => exact TtlStore.ttl_refresh

theorem lifetime_set (key : String) (value : α) :
    (layer.set now key value).lifetime = layer.lifetime := by
  obtain ⟨_ | store, locks⟩ := layer
  · rfl
  · cases store with
    | null | broken => rfl
    | ttl store => exact TtlStore.ttl_sweep

theorem lifetime_foldl_set {β : Type} (key : β → String) (value : β → α) (entries : List β) :
    (entries.foldl (fun layer entry => layer.set now (key entry) (value entry)) layer).lifetime =
      layer.lifetime := by
  induction entries generalizing layer with
  | nil => rfl
  | cons entry rest ih => exact ih.trans (lifetime_set now (key entry) (value entry))

variable {now}

/-- Where something is found, values have a lifetime. -/
theorem Dated.lifetime_pos (h : layer.Dated now) {key : String} {value : α}
    (hfound : layer.found? now key = some value) : 0 < layer.lifetime := by
  obtain ⟨_ | store, locks⟩ := layer
  · cases hfound
  · cases store with
    | null | broken => cases hfound
    | ttl store =>
      rw [found?_ttl] at hfound
      exact TtlStore.Dated.ttl_pos (h _ rfl) hfound

theorem Dated.found?_of_lifetime (h : layer.Dated now) (hlifetime : layer.lifetime = 0)
    (key : String) : layer.found? now key = none :=
  Option.eq_none_iff_forall_ne_some.2 fun _ hfound =>
    (h.lifetime_pos hfound).ne' hlifetime

/-- Where values have a lifetime, writing changes what is found under the key, and nothing else. -/
theorem found?_set (now : Nat) (hlifetime : 0 < layer.lifetime) (key : String) (value : α)
    (other : String) :
    (layer.set now key value).found? now other =
      if key = other then some value else layer.found? now other := by
  obtain ⟨_ | store, locks⟩ := layer
  · exact absurd hlifetime (Nat.lt_irrefl 0)
  · cases store with
    | null | broken => exact absurd hlifetime (Nat.lt_irrefl 0)
    | ttl store =>
      change found? now other ⟨some (.ttl (store.write now key value)), locks⟩ = _
      have hvisible : now < now + store.ttl := Nat.lt_add_of_pos_right hlifetime
      rw [found?_ttl, found?_ttl, TtlStore.visible?_write (Nat.le_refl now), if_pos hvisible]

/-- Of all that is written under a key, the last value is found. -/
theorem found?_foldl_set (hlifetime : 0 < layer.lifetime) {β : Type} (key : β → String)
    (value : β → α) (entries : List β) (k : String) :
    (entries.foldl (fun layer entry => layer.set now (key entry) (value entry)) layer).found? now k =
      ((OrderedMap.ofList (entries.map fun entry => (key entry, value entry))).get? k).or
        (layer.found? now k) := by
  induction entries using List.reverseRecOn with
  | nil => rfl
  | append_singleton init last ih =>
    rw [← lifetime_foldl_set now key value init] at hlifetime
    rw [List.foldl_append, List.foldl_cons, List.foldl_nil, found?_set now hlifetime, ih,
      List.map_append, List.map_singleton, OrderedMap.ofList_append_singleton,
      OrderedMap.get?_insert]
    split <;> rfl

end Lifetime

section Build

variable {layer : AnyLayer α} {time now : Nat} {ε ρ : Type} (h : layer.Dated now)
  (accept : α → Bool) (build : ρ → Except ε α × ρ)

include h

theorem Dated.getOrBuild (htime : time ≤ now) (key : String) (world : ρ) :
    (layer.getOrBuild time key accept build world).2.1.Dated now := by
  have hfirst := h.get? htime key
  have hentered : ((layer.get? time key).2.enter key).Dated now := hfirst
  have hsecond := hentered.get? htime key
  rw [CacheLayer.getOrBuild]
  split
  · dsimp only
    split
    · exact hfirst
    · split
      · exact hsecond
      · split
        · exact hsecond.set htime key _
        · exact hsecond
  · exact h

/-- A build that fails changes nothing about what is found. -/
theorem Dated.getOrBuild_error {key : String} {world : ρ} {e : ε}
    (herror : (layer.getOrBuild now key accept build world).1 = .error e) :
    let result := layer.getOrBuild now key accept build world
    (build world).1 = .error e ∧ result.2.2 = (build world).2 ∧
      ∀ other, result.2.1.found? now other = layer.found? now other := by
  have hentered : ((layer.get? now key).2.enter key).Dated now := h.get? (Nat.le_refl now) key
  rw [CacheLayer.getOrBuild] at herror ⊢
  split at herror
  · next henabled =>
    rw [if_pos henabled]
    dsimp only at herror ⊢
    split at herror
    · cases herror
    · split at herror
      · cases herror
      · split at herror
        · cases herror
        · next e' world' hbuilt =>
          rw [hbuilt]
          refine ⟨herror, rfl, fun other => ?_⟩
          rw [CacheLayer.found?_leave, hentered.found?_get?, CacheLayer.found?_enter,
            h.found?_get?]
  · next hdisabled =>
    rw [if_neg hdisabled]
    exact ⟨herror, rfl, fun _ => rfl⟩

end Build

end CacheLayer

/-! ### Looking up the types of models -/

namespace Run

variable (run : Run)

/-- Whether the types that are found under a key are those found before, or, under the cache
identity of a model, those with the mark of a run in place of another one. -/
def MarksAt (now : Nat) (models : List ModelDecl) (before after : AnyLayer ModelTypes)
    (key : String) : Prop :=
  after.found? now key = before.found? now key ∨
    (∃ model ∈ models, model.cacheIdentity = key) ∧
      ∃ cached types, before.found? now key = some cached ∧ after.found? now key = some types ∧
        cached.Rebinds run.identity types

/-- Whether what is found differs from what was found before by the mark of a run only. -/
def Marks (now : Nat) (models : List ModelDecl) (before after : AnyLayer ModelTypes) : Prop :=
  ∀ key, run.MarksAt now models before after key

variable {run} {now : Nat} {models larger : List ModelDecl}
  {types before middle after : AnyLayer ModelTypes}

theorem Marks.mono (h : run.Marks now models before after) (hsub : models ⊆ larger) :
    run.Marks now larger before after := by
  intro key
  refine (h key).imp_right fun ⟨⟨model, hmodel, hkey⟩, hmarked⟩ => ?_
  exact ⟨⟨model, hsub hmodel, hkey⟩, hmarked⟩

/-- Types that were given the mark are not given it again. -/
theorem Marks.trans (h : run.Marks now models before middle)
    (h' : run.Marks now models middle after) : run.Marks now models before after := by
  intro key
  rcases h key with hsame | ⟨hmodel, cached, marked, hcached, hmarked, hrebinds⟩
  · have hnext := h' key
    rwa [MarksAt, hsame] at hnext
  · rcases h' key with hsame | ⟨-, again, _, hagain, -, hforeign⟩
    · exact .inr ⟨hmodel, cached, marked, hcached, hsame.trans hmarked, hrebinds⟩
    · obtain rfl := Option.some.inj (hmarked.symm.trans hagain)
      exact absurd (congrArg ObjectType.identity hrebinds.root) hforeign.foreign

section Dated

variable {time : Nat}

variable (run) in
theorem dated_reuse (h : types.Dated now) (htime : time ≤ now) (index : Nat) (model : ModelDecl) :
    (run.reuse time index model types).2.Dated now := by
  have hdated := h.get? htime model.cacheIdentity
  rw [reuse]
  dsimp only
  split
  · exact hdated
  · split
    · exact hdated
    · exact hdated.set htime _ _

variable (run) in
theorem dated_reuseAll (h : types.Dated now) (htime : time ≤ now) (index : Nat)
    (models : List ModelDecl) : (run.reuseAll time index models types).2.Dated now := by
  induction models generalizing index types with
  | nil => exact h
  | cons model rest ih => exact ih (run.dated_reuse h htime index model) (index + 1)

variable (run) in
theorem dated_build (h : types.Dated now) (htime : time ≤ now) (models : List ModelDecl) :
    (run.build time models types).2.Dated now := by
  have hdated := run.dated_reuseAll h htime 0 models
  rw [build]
  split
  · exact h
  · dsimp only
    split
    · exact hdated
    · next fresh _ => exact hdated.foldl_set htime (typesKey models) id fresh

end Dated

variable (run) in
theorem marks_reuse (h : types.Dated now) (index : Nat) (model : ModelDecl) :
    run.Marks now [model] types (run.reuse now index model types).2 := by
  have hlookup := h.found?_get? model.cacheIdentity
  have hdated := h.get? (Nat.le_refl now) model.cacheIdentity
  have hfound : types.found? now model.cacheIdentity =
      (types.get? now model.cacheIdentity).1 := rfl
  rw [reuse]
  dsimp only
  cases hhit : (types.get? now model.cacheIdentity).1 with
  | none => exact fun key => .inl (hlookup key)
  | some cached =>
    dsimp only
    split
    · exact fun key => .inl (hlookup key)
    · next hmark =>
      intro key
      have hold : (types.get? now model.cacheIdentity).2.found? now model.cacheIdentity =
          some cached := (hlookup _).trans (hfound.trans hhit)
      have hset := CacheLayer.found?_set now (hdated.lifetime_pos hold) model.cacheIdentity
        (cached.withIdentity run.identity ⟨run.number, .rebound index⟩) key
      by_cases heq : model.cacheIdentity = key
      · rw [if_pos heq] at hset
        have hforeign : cached.root.value.identity ≠ some run.identity :=
          fun hsame => hmark (decide_eq_true hsame)
        exact .inr ⟨⟨model, List.mem_singleton_self _, heq⟩, cached, _,
          heq ▸ hfound.trans hhit, hset, hforeign, rfl, rfl, rfl⟩
      · rw [if_neg heq] at hset
        exact .inl (hset.trans (hlookup key))

variable (run) in
/-- Looking up the types of models changes nothing but marks. -/
theorem marks_reuseAll (h : types.Dated now) (index : Nat) (models : List ModelDecl) :
    run.Marks now models types (run.reuseAll now index models types).2 := by
  induction models generalizing index types with
  | nil => exact fun _ => .inl rfl
  | cons model rest ih =>
    have hfirst := run.marks_reuse h index model
    have hrest := ih (run.dated_reuse h (Nat.le_refl now) index model) (index + 1)
    exact (hfirst.mono (List.cons_subset_cons _ (List.nil_subset _))).trans
      (hrest.mono (List.subset_cons_self _ _))

variable (run types now) in
theorem lifetime_reuseAll (index : Nat) (models : List ModelDecl) :
    (run.reuseAll now index models types).2.lifetime = types.lifetime := by
  induction models generalizing index types with
  | nil => rfl
  | cons model rest ih =>
    refine (ih _ (index + 1)).trans ?_
    have hlooked : (types.get? now model.cacheIdentity).2.lifetime = types.lifetime :=
      CacheLayer.lifetime_get? now model.cacheIdentity
    change (run.reuse now index model types).2.lifetime = types.lifetime
    rw [reuse]
    dsimp only
    split
    · exact hlooked
    · split
      · exact hlooked
      · exact (CacheLayer.lifetime_set now _ _).trans hlooked

variable (run types now) in
theorem lifetime_build (models : List ModelDecl) :
    (run.build now models types).2.lifetime = types.lifetime := by
  have hlooked := run.lifetime_reuseAll now types 0 models
  rw [build]
  split
  · rfl
  · dsimp only
    split
    · exact hlooked
    · exact (CacheLayer.lifetime_foldl_set now (typesKey models) id _).trans hlooked

/-! ### Failed calls -/

variable (run) in
/-- The types that a run builds and stores under a key before the last check of its graph. -/
def built? (now : Nat) (models : List ModelDecl) (types : AnyLayer ModelTypes) (key : String) :
    Option ModelTypes :=
  match checkKeys [] models, run.assemble (run.reuseAll now 0 models types).1 with
  | .ok _, .ok (_, fresh) =>
    (OrderedMap.ofList (fresh.map fun entry => (typesKey models entry, entry))).get? key
  | _, _ => none

variable (run now) in
/-- A build writes what it has built over what it has looked up. -/
theorem found?_build (hlifetime : 0 < types.lifetime) (hkeys : checkKeys [] models = .ok ())
    (key : String) :
    (run.build now models types).2.found? now key =
      (run.built? now models types key).or
        ((run.reuseAll now 0 models types).2.found? now key) := by
  rw [build, built?, hkeys]
  dsimp only
  cases run.assemble (run.reuseAll now 0 models types).1 with
  | error e => rfl
  | ok result =>
    rw [← run.lifetime_reuseAll now types 0 models] at hlifetime
    exact CacheLayer.found?_foldl_set hlifetime (typesKey models) id result.2 key

variable (run) in
/-- A build leaves types as they are when a key occurs twice. Otherwise it changes marks only, but for
what it has built. -/
theorem marks_build (h : types.Dated now) (models : List ModelDecl) :
    (checkKeys [] models ≠ .ok () → (run.build now models types).2 = types) ∧
      ∀ key, run.built? now models types key = none ∨ types.lifetime = 0 →
        run.MarksAt now models types (run.build now models types).2 key := by
  cases hkeys : checkKeys [] models with
  | error e =>
    have hsame : (run.build now models types).2 = types := by
      rw [build, hkeys]
    exact ⟨fun _ => hsame, fun _ _ => .inl (by rw [hsame])⟩
  | ok =>
    refine ⟨fun hne => absurd rfl hne, fun key hclean => ?_⟩
    rcases Nat.eq_zero_or_pos types.lifetime with hzero | hpos
    · have hafter : (run.build now models types).2.lifetime = 0 :=
        (run.lifetime_build now types models).trans hzero
      have hdated := run.dated_build h (Nat.le_refl now) models
      exact .inl ((hdated.found?_of_lifetime hafter key).trans (h.found?_of_lifetime hzero key).symm)
    · have hnone := hclean.resolve_right (Nat.pos_iff_ne_zero.1 hpos)
      have hmarks := run.marks_reuseAll h 0 models key
      have hsame := run.found?_build now hpos hkeys key
      rw [hnone, Option.none_or] at hsame
      rwa [MarksAt, ← hsame] at hmarks

/-- What a failed build has built, it built for a graph that failed its last check. -/
theorem validate_of_built? {e : SynthError} (herror : (run.build now models types).1 = .error e)
    {key : String} {entry : ModelTypes} (h : run.built? now models types key = some entry) :
    checkKeys [] models = .ok () ∧ ∃ graph fresh,
      run.assemble (run.reuseAll now 0 models types).1 = .ok (graph, fresh) ∧
        entry ∈ fresh ∧ graph.validate = .error e := by
  rw [built?] at h
  split at h
  · next graph fresh hkeys hassemble =>
    rw [build, hkeys] at herror
    dsimp only at herror
    rw [hassemble] at herror
    dsimp only at herror
    obtain ⟨other, hother, heq⟩ := List.mem_map.1 (OrderedMap.mem_of_get?_ofList h)
    refine ⟨hkeys, graph, fresh, hassemble, ?_, ?_⟩
    · rwa [← (Prod.mk.inj heq).2]
    · cases hvalid : graph.validate <;> rw [hvalid] at herror <;> cases herror
      rfl
  · cases h

/-- What is built beside types that were looked up is new. -/
theorem makes_of_assemble (h : types.Holds fun _ types => types.Unmarked) {graph : TypeGraph}
    {fresh : List ModelTypes}
    (hassemble : run.assemble (run.reuseAll now 0 models types).1 = .ok (graph, fresh))
    {entry : ModelTypes} (hentry : entry ∈ fresh) : run.Makes entry.root := by
  have hstored : types.Holds (run.FoundIn types) := CacheLayer.holds_iff.2 fun _ _ => .inl
  obtain ⟨hreused, -⟩ := found_reuseAll now hstored 0 models
  obtain ⟨-, -, hmade⟩ := owned_of_assemble hassemble fun model types hmem => by
    obtain ⟨-, hfound, hmark⟩ := hreused model types hmem
    exact ⟨hmark, hfound.unmarked h⟩
  exact (hmade entry hentry).1

variable (run) in
/-- How a graph is made, for the cache of whole graphs to keep it. -/
def make (now : Nat) (models : List ModelDecl) (types : AnyLayer ModelTypes) :
    Except SynthError (Shared TypeGraph) × AnyLayer ModelTypes :=
  ((run.build now models types).1.map (Shared.mk ⟨run.number, .graph⟩),
    (run.build now models types).2)

/-- A call that fails has failed to build a graph, and finds whole graphs as before. -/
theorem build_error_of_synthesizeCached {caches : Caches} (h : caches.schemas.Dated now)
    {e : SynthError} (herror : (run.synthesizeCached now models caches).1 = .error e) :
    let after := (run.synthesizeCached now models caches).2
    (run.build now models caches.types).1 = .error e ∧
      after.types = (run.build now models caches.types).2 ∧
      ∀ key, after.schemas.found? now key = caches.schemas.found? now key := by
  obtain ⟨hmake, htypes, hschemas⟩ := h.getOrBuild_error
    (fun graph => decide (graph.value.identity = run.identity)) (run.make now models)
    herror
  refine ⟨?_, htypes, hschemas⟩
  cases hresult : (run.build now models caches.types).1 <;> rw [make, hresult] at hmake <;>
    cases hmake
  rfl

end Run

/-! ### Reachable caches -/

namespace Caches

/-- When an event happens. -/
def Event.time : Event → Nat
  | .synthesize _ now _ | .expire now => now

/-- Caches whose entries were written or found up to a time. -/
structure Dated (now : Nat) (caches : Caches) : Prop where
  types : caches.types.Dated now
  schemas : caches.schemas.Dated now

theorem Empty.dated {caches : Caches} (h : caches.Empty) (now : Nat) : caches.Dated now :=
  ⟨CacheLayer.dated_of_holds h.types, CacheLayer.dated_of_holds h.schemas⟩

theorem Dated.perform {caches : Caches} {now : Nat} (h : caches.Dated now) {event : Event}
    (htime : event.time ≤ now) : (caches.perform event).Dated now := by
  cases event with
  | expire time => exact ⟨h.types.purge time, h.schemas.purge time⟩
  | synthesize run time models =>
    refine ⟨?_, h.schemas.getOrBuild (fun graph => decide (graph.value.identity = run.identity))
      (run.make time models) htime (schemaKey models) caches.types⟩
    have hschemas : caches.schemas.Holds fun _ _ => True :=
      CacheLayer.holds_iff.2 fun _ _ _ => trivial
    exact (run.found_or_built time models hschemas h.types
      (run.dated_build h.types htime models) fun _ _ => trivial).2.2

theorem Dated.after {caches : Caches} {now : Nat} (h : caches.Dated now) {events : List Event}
    (htimes : ∀ event ∈ events, event.time ≤ now) : (caches.after events).Dated now := by
  induction events generalizing caches with
  | nil => exact h
  | cons event rest ih =>
    obtain ⟨hevent, hrest⟩ := List.forall_mem_cons.1 htimes
    exact ih (h.perform hevent) hrest

end Caches

/-- What a failed call leaves in caches that callers share, whatever they did before, as long as the
clock did not run backwards. Whole graphs are found as before, and with a key that occurs twice,
nothing changes at all. Types of the models asked for that had another caller's mark may have the mark
of this caller now. When the call has failed in the last check of its graph only, then the types that
it has made are found under their keys; when it failed earlier, there are none. Other types are found
as before. -/
theorem Run.failed_synthesis {start : Caches} (hstart : start.Empty) (events : List Caches.Event)
    (run : Run) {now : Nat} (htimes : ∀ event ∈ events, event.time ≤ now)
    (models : List ModelDecl) {e : SynthError}
    (herror : (run.synthesizeCached now models (start.after events)).1 = .error e) :
    let before := start.after events
    let after := (run.synthesizeCached now models before).2
    (∀ key, after.schemas.found? now key = before.schemas.found? now key) ∧
      (checkKeys [] models ≠ .ok () →
        ∀ key, after.types.found? now key = before.types.found? now key) ∧
      (∀ key, run.built? now models before.types key = none ∨ before.types.lifetime = 0 →
        run.MarksAt now models before.types after.types key) ∧
      ∀ key entry, run.built? now models before.types key = some entry →
        (0 < before.types.lifetime → after.types.found? now key = some entry) ∧
          run.Makes entry.root ∧
          ∃ graph fresh, run.assemble (run.reuseAll now 0 models before.types).1 =
            .ok (graph, fresh) ∧ entry ∈ fresh ∧ graph.validate = .error e := by
  have hdated : (start.after events).Dated now := (hstart.dated now).after htimes
  have hmarked : (start.after events).Marked := hstart.marked.after events
  obtain ⟨hbuild, htypes, hschemas⟩ := Run.build_error_of_synthesizeCached hdated.schemas herror
  obtain ⟨hkeys, hmarks⟩ := run.marks_build hdated.types models
  refine ⟨hschemas, fun hduplicate key => ?_, fun key hclean => ?_, fun key entry hbuilt => ?_⟩
  · rw [htypes, hkeys hduplicate]
  · rw [htypes]
    exact hmarks key hclean
  · obtain ⟨hunique, graph, fresh, hassemble, hfresh, hinvalid⟩ :=
      Run.validate_of_built? hbuild hbuilt
    refine ⟨fun hlifetime => ?_, ?_, graph, fresh, hassemble, hfresh, hinvalid⟩
    · rw [htypes, run.found?_build now hlifetime hunique, hbuilt]
      rfl
    · exact Run.makes_of_assemble hmarked.types hassemble hfresh

/-- An author is cached together with the city that it refers to. A call that asks for the author and a
station, but not for the city, is refused, and has stored the types of the station. -/
theorem Run.failed_synthesis_station :
    let before := (Caches.ofSettings 0 {}).after [.synthesize (Run.mk {} ⟨0⟩ 0) 0 [.author, .city]]
    let run : Run := ⟨{}, ⟨0⟩, 1⟩
    let result := run.synthesizeCached 5 [.author, .station] before
    ∃ e entry, result.1 = .error e ∧
      (∀ key, result.2.schemas.found? 5 key = before.schemas.found? 5 key) ∧
      result.2.types.found? 5 "authors" = before.types.found? 5 "authors" ∧
      result.2.types.found? 5 "stations" = some entry ∧ run.Makes entry.root := by
  intro before run result
  have hfails : result.1.isOk = false := by decide +kernel
  have hbuilt : (run.built? 5 [.author, .station] before.types "stations").isSome := by decide +kernel
  have hreused : run.built? 5 [.author, .station] before.types "authors" = none := by decide +kernel
  have hlifetime : 0 < before.types.lifetime := by decide +kernel
  have hown : (before.types.found? 5 "authors").map (fun types => types.root.value.identity) =
      some (some ⟨0⟩) := by decide +kernel
  obtain ⟨e, herror⟩ := exists_eq_error hfails
  obtain ⟨entry, hentry⟩ := Option.isSome_iff_exists.1 hbuilt
  obtain ⟨hschemas, -, hmarks, hstored⟩ := Run.failed_synthesis (Caches.empty_ofSettings 0 {})
    [.synthesize (Run.mk {} ⟨0⟩ 0) 0 [.author, .city]] run
    (show ∀ event ∈ [Caches.Event.synthesize (Run.mk {} ⟨0⟩ 0) 0 [.author, .city]], event.time ≤ 5
      from fun event hevent => List.mem_singleton.1 hevent ▸ Nat.zero_le 5) [.author, .station] herror
  subst result before run
  obtain ⟨hfound, hmakes, -⟩ := hstored "stations" entry hentry
  refine ⟨e, entry, herror, hschemas, ?_, hfound hlifetime, hmakes⟩
  -- The author has the mark of this caller already.
  refine (hmarks "authors" (.inl hreused)).resolve_right ?_
  rintro ⟨-, cached, types, hcached, -, hrebinds⟩
  rw [hcached] at hown
  exact hrebinds.foreign (Option.some.inj hown)

/-- A failed call need not leave the types cache as it was: there are types of a station where there
were none, and another caller's types of a person have changed their mark. -/
theorem Run.not_unchanged_of_failed_synthesis :
    (let before := (Caches.ofSettings 0 {}).after [.synthesize (Run.mk {} ⟨0⟩ 0) 0 [.author, .city]]
      let result := (Run.mk {} ⟨0⟩ 1).synthesizeCached 5 [.author, .station] before
      result.1.isOk = false ∧ before.types.found? 5 "stations" = none ∧
        (result.2.types.found? 5 "stations").map ModelTypes.key = some "station") ∧
    let before := (Caches.ofSettings 0 {}).after [.synthesize (Run.mk {} ⟨0⟩ 0) 0 [.person]]
    let result := (Run.mk {} ⟨1⟩ 1).synthesizeCached 5 [.person, .dotted] before
    result.1.isOk = false ∧
      (before.types.found? 5 "people").map (fun types => types.root.value.identity) =
        some (some ⟨0⟩) ∧
      (result.2.types.found? 5 "people").map (fun types => types.root.value.identity) =
        some (some ⟨1⟩) := by
  decide +kernel

end ModelGraph
