import ModelGraph.Cache.Layer
import ModelGraph.Proofs.OrderedMap
import ModelGraph.Proofs.Success

/-!
# Layers over stores that fail

A layer answers whatever its store does. The store is any type with the operations of a store, so
each of them may fail at any time, and it may keep a record of what it is asked. What happens in one
call is listed as events: look-ups, writes and renewals with the answers of the store, and builds
with their results.

## Main definitions

- `LayerCall`, `LayerCall.perform`, `CacheLayer.afterCalls` — calls of a layer, and runs of them
- `LayerEvent`, `LayerTrace` — what happens in a call
- `LayerCall.Sound` — what a call may answer, given what happened

## Main statements

- `CacheLayer.sound_of_calls` — every call of every run is sound and leaves no key in flight
-/

namespace ModelGraph

variable {σ α ε ρ : Type}

/-! ### Calls and events -/

/-- A call of a layer. A value is built on a state. -/
inductive LayerCall (α ε ρ : Type) where
  | get (key : String)
  | set (key : String) (value : α)
  | touch (key : String)
  | getOrBuild (key : String) (accept : α → Bool) (build : ρ → Except ε α × ρ)

/-- What a call answers. -/
inductive LayerAnswer (α ε : Type) where
  | found (value : Option α)
  | stored
  | touched (hit : Bool)
  | result (result : Except ε α)

/-- What happens while a layer answers a call. -/
inductive LayerEvent (α ε : Type) where
  | lookedUp (key : String) (answer : Except StoreError (Option α))
  | wrote (key : String) (value : α) (answer : Except StoreError Unit)
  | renewed (key : String) (answer : Except StoreError Bool)
  | built (result : Except ε α)

namespace LayerEvent

/-- The keys and values that are written, in order. -/
def writes (events : List (LayerEvent α ε)) : List (String × α) :=
  events.filterMap fun
    | .wrote key value _ => some (key, value)
    | _ => none

/-- The results of what is built, in order. -/
def builds (events : List (LayerEvent α ε)) : List (Except ε α) :=
  events.filterMap fun
    | .built result => some result
    | _ => none

theorem writes_append (first rest : List (LayerEvent α ε)) :
    writes (first ++ rest) = writes first ++ writes rest :=
  List.filterMap_append

theorem builds_append (first rest : List (LayerEvent α ε)) :
    builds (first ++ rest) = builds first ++ builds rest :=
  List.filterMap_append

/-- Several look-ups of one key. -/
def lookUps (key : String) (answers : List (Except StoreError (Option α))) :
    List (LayerEvent α ε) :=
  answers.map (.lookedUp key)

variable {key : String} {answers : List (Except StoreError (Option α))}

theorem writes_lookUps : writes (lookUps key answers : List (LayerEvent α ε)) = [] := by
  simp [writes, lookUps]

theorem builds_lookUps : builds (lookUps key answers : List (LayerEvent α ε)) = [] := by
  simp [builds, lookUps]

theorem mem_lookUps {other : String} {answer : Except StoreError (Option α)} :
    (.lookedUp other answer : LayerEvent α ε) ∈ lookUps key answers ↔
      other = key ∧ answer ∈ answers := by
  simp only [lookUps, List.mem_map, lookedUp.injEq]
  constructor
  · rintro ⟨_, hmem, rfl, rfl⟩
    exact ⟨rfl, hmem⟩
  · rintro ⟨rfl, hmem⟩
    exact ⟨answer, hmem, rfl, rfl⟩

end LayerEvent

namespace LayerCall

/-- The builder that a call is given. -/
def builder? : LayerCall α ε ρ → Option (ρ → Except ε α × ρ)
  | .getOrBuild _ _ build => some build
  | _ => none

variable [CacheStore σ α]

/-- Makes a call at a time. -/
def perform (now : Nat) (call : LayerCall α ε ρ) (state : CacheLayer σ × ρ) :
    LayerAnswer α ε × CacheLayer σ × ρ :=
  match call with
  | .get key =>
    let (hit, layer) := state.1.get? now key
    (.found hit, layer, state.2)
  | .set key value => (.stored, state.1.set now key value, state.2)
  | .touch key =>
    let (hit, layer) := state.1.touch now key
    (.touched hit, layer, state.2)
  | .getOrBuild key accept build =>
    let (result, layer, world) := state.1.getOrBuild now key accept build state.2
    (.result result, layer, world)

end LayerCall

/-- A layer, with the state that is built on, after calls at their times. -/
def CacheLayer.afterCalls [CacheStore σ α] (calls : List (Nat × LayerCall α ε ρ))
    (state : CacheLayer σ × ρ) : CacheLayer σ × ρ :=
  calls.foldl (fun state call => (call.2.perform call.1 state).2) state

/-- The events of a call, one after another, with the store of the layer, if it has one, and the
state that is built on, before and after them. -/
inductive LayerTrace [CacheStore σ α] (now : Nat) (builder? : Option (ρ → Except ε α × ρ)) :
    Option σ × ρ → List (LayerEvent α ε) → Option σ × ρ → Prop
  | nil (state : Option σ × ρ) : LayerTrace now builder? state [] state
  | lookedUp (key : String) {store : σ} {world : ρ} {events : List (LayerEvent α ε)}
      {last : Option σ × ρ}
      (rest : LayerTrace now builder? (some (CacheStore.get now key store).2, world) events last) :
      LayerTrace now builder? (some store, world)
        (.lookedUp key (CacheStore.get now key store).1 :: events) last
  | wrote (key : String) (value : α) {store : σ} {world : ρ} {events : List (LayerEvent α ε)}
      {last : Option σ × ρ}
      (rest : LayerTrace now builder? (some (CacheStore.set now key value store).2, world) events
        last) :
      LayerTrace now builder? (some store, world)
        (.wrote key value (CacheStore.set now key value store).1 :: events) last
  | renewed (key : String) {store : σ} {world : ρ} {events : List (LayerEvent α ε)}
      {last : Option σ × ρ}
      (rest : LayerTrace now builder? (some (CacheStore.touch now key store).2, world) events last) :
      LayerTrace now builder? (some store, world)
        (.renewed key (CacheStore.touch now key store).1 :: events) last
  | built {build : ρ → Except ε α × ρ} (given : builder? = some build) {store : Option σ} {world : ρ}
      {events : List (LayerEvent α ε)} {last : Option σ × ρ}
      (rest : LayerTrace now builder? (store, (build world).2) events last) :
      LayerTrace now builder? (store, world) (.built (build world).1 :: events) last

/-! ### Soundness -/

/-- What holds of a call that finds or builds the value of a key. -/
structure BuildSound (enabled : Bool) (key : String) (accept : α → Bool)
    (events : List (LayerEvent α ε)) (result : Except ε α) : Prop where
  /-- The builder runs at most once. -/
  builds_le : (LayerEvent.builds events).length ≤ 1
  /-- Only the key is looked up. -/
  lookUps_key : ∀ other answer, .lookedUp other answer ∈ events → other = key
  /-- The builder runs only if every look-up failed, missed or found what is not accepted. -/
  missed : LayerEvent.builds events ≠ [] →
    ∀ other value, .lookedUp other (.ok (some value)) ∈ events → accept value = false
  /-- A value was found and accepted in this call, or built in it. -/
  found_or_built : ∀ value, result = .ok value →
    .lookedUp key (.ok (some value)) ∈ events ∧ accept value = true ∨
      .ok value ∈ LayerEvent.builds events
  /-- What the builder gives is returned as it is. -/
  returned : ∀ built ∈ LayerEvent.builds events, result = built
  /-- An error is one that the builder gave. -/
  error_built : ∀ e, result = .error e → .error e ∈ LayerEvent.builds events
  /-- A value that was built is written once, under the key, if the layer has a store; nothing else
  is written. -/
  writes_eq : LayerEvent.writes events =
    if enabled then
      (LayerEvent.builds events).filterMap fun built => built.toOption.map fun value => (key, value)
    else []

/-- What a call may answer, given what happened. A store's error is never an answer: a look-up or
renewal that failed counts as a miss. -/
def LayerCall.Sound (enabled : Bool) (events : List (LayerEvent α ε)) :
    LayerCall α ε ρ → LayerAnswer α ε → Prop
  | .get key, .found hit =>
    (∀ value, hit = some value ↔ .lookedUp key (.ok (some value)) ∈ events) ∧
      LayerEvent.writes events = []
  | .set key value, .stored =>
    LayerEvent.writes events = if enabled then [(key, value)] else []
  | .touch key, .touched hit =>
    (hit = true ↔ .renewed key (.ok true) ∈ events) ∧ LayerEvent.writes events = []
  | .getOrBuild key accept _, .result result => BuildSound enabled key accept events result
  | _, _ => False

namespace BuildSound

open LayerEvent

variable {key : String} {accept : α → Bool}

/-- A call that looked its key up and found what is accepted has nothing more to do. -/
theorem of_found (looks : List (Except StoreError (Option α))) {enabled : Bool} {value : α}
    (hfound : .ok (some value) ∈ looks) (haccept : accept value = true) :
    BuildSound enabled key accept (lookUps key looks : List (LayerEvent α ε)) (.ok value) := by
  constructor
  case builds_le => simp [builds_lookUps]
  case lookUps_key => exact fun other answer hmem => (mem_lookUps.1 hmem).1
  case missed => exact fun hbuilt => absurd builds_lookUps hbuilt
  case found_or_built =>
    rintro _ ⟨⟩
    exact .inl ⟨mem_lookUps.2 ⟨rfl, hfound⟩, haccept⟩
  case returned => simp [builds_lookUps]
  case error_built => simp
  case writes_eq => simp [builds_lookUps, writes_lookUps]

/-- A call whose look-ups gave nothing that is accepted builds, and what it stores is what it
built. -/
theorem of_built (looks : List (Except StoreError (Option α)))
    (hmissed : ∀ value, .ok (some value) ∈ looks → accept value = false)
    {enabled : Bool} {result : Except ε α} {stored : List (LayerEvent α ε)}
    (hbuilds : builds stored = [])
    (hwrites : writes stored =
      if enabled then (result.toOption.map fun value => (key, value)).toList else [])
    (hstored : ∀ other answer, .lookedUp other answer ∉ stored) :
    BuildSound enabled key accept (lookUps key looks ++ .built result :: stored) result := by
  have hbuilt : builds (lookUps key looks ++ .built result :: stored) = [result] := by
    rw [builds_append, builds_lookUps]
    exact congrArg (result :: ·) hbuilds
  have hlooked : ∀ {other answer},
      .lookedUp other answer ∈ lookUps key looks ++ .built result :: stored →
        other = key ∧ answer ∈ looks := by
    intro other answer hmem
    rcases List.mem_append.1 hmem with hmem | hmem
    · exact mem_lookUps.1 hmem
    · exact absurd (by simpa using hmem) (hstored other answer)
  constructor
  case builds_le => simp [hbuilt]
  case lookUps_key => exact fun other answer hmem => (hlooked hmem).1
  case missed => exact fun _ other value hmem => hmissed value (hlooked hmem).2
  case found_or_built =>
    rintro value rfl
    exact .inr (by simp [hbuilt])
  case returned => simp [hbuilt]
  case error_built =>
    rintro e rfl
    simp [hbuilt]
  case writes_eq =>
    rw [writes_append, writes_lookUps, hbuilt]
    refine Eq.trans (b := writes stored) rfl (hwrites.trans ?_)
    cases enabled <;> cases result <;> rfl

end BuildSound

namespace CacheLayer

open LayerEvent

theorem join_toOption_eq_some_iff {answer : Except StoreError (Option α)} {value : α} :
    answer.toOption.join = some value ↔ answer = .ok (some value) := by
  rcases answer with e | _ | found <;> simp [Except.toOption]

/-- A look-up gives what is accepted, or else nothing that is. -/
theorem filter_join_toOption (answer : Except StoreError (Option α)) (accept : α → Bool) :
    (∃ value, answer.toOption.join.filter accept = some value ∧ answer = .ok (some value) ∧
      accept value = true) ∨
    answer.toOption.join.filter accept = none ∧
      ∀ value, .ok (some value) = answer → accept value = false := by
  rcases answer with e | _ | value
  · exact .inr ⟨rfl, fun _ h => (by cases h)⟩
  · exact .inr ⟨rfl, fun _ h => (by cases h)⟩
  · by_cases haccept : accept value = true
    · exact .inl ⟨value, by simp [Except.toOption, haccept], rfl, haccept⟩
    · refine .inr ⟨by simp [Except.toOption, haccept], ?_⟩
      rintro _ ⟨⟩
      exact Bool.eq_false_iff.2 haccept

/-- The first caller of a key takes its lock. -/
theorem enter_empty (key : String) (store : Option σ) :
    enter key (⟨store, ∅⟩ : CacheLayer σ) = ⟨store, (∅ : OrderedMap String Nat).insert key 1⟩ := rfl

/-- The only caller of a key removes its lock. -/
theorem leave_insert (key : String) (store : Option σ) :
    leave key (⟨store, (∅ : OrderedMap String Nat).insert key 1⟩ : CacheLayer σ) = ⟨store, ∅⟩ := by
  rw [leave, released, OrderedMap.get?_insert, if_pos rfl]
  dsimp only
  rw [if_pos (Nat.le_refl 1), OrderedMap.erase_insert_of_notMem (by simp)]

variable [CacheStore σ α]

theorem get?_some (now : Nat) (key : String) (store : σ) (locks : OrderedMap String Nat) :
    (⟨some store, locks⟩ : CacheLayer σ).get? now key =
      ((CacheStore.get now key store).1.toOption.join,
        ⟨some (CacheStore.get now key store).2, locks⟩) :=
  rfl

theorem set_some (now : Nat) (key : String) (value : α) (store : σ)
    (locks : OrderedMap String Nat) :
    (⟨some store, locks⟩ : CacheLayer σ).set now key value =
      ⟨some (CacheStore.set now key value store).2, locks⟩ :=
  rfl

/-- Without other callers a layer with a store looks its key up twice before it builds, and the lock
that it takes in between is gone in the end. -/
theorem getOrBuild_some (store : σ) (now : Nat) (key : String) (accept : α → Bool)
    (build : ρ → Except ε α × ρ) (world : ρ) :
    (⟨some store, ∅⟩ : CacheLayer σ).getOrBuild now key accept build world =
      let first := CacheStore.get now key store
      let second := CacheStore.get now key first.2
      match first.1.toOption.join.filter accept with
      | some value => (.ok value, ⟨some first.2, ∅⟩, world)
      | none =>
        match second.1.toOption.join.filter accept with
        | some value => (.ok value, ⟨some second.2, ∅⟩, world)
        | none =>
          match build world with
          | (.ok value, world) => (.ok value, ⟨some (CacheStore.set now key value second.2).2, ∅⟩, world)
          | (.error e, world) => (.error e, ⟨some second.2, ∅⟩, world) := by
  rw [getOrBuild, if_pos (show isEnabled ⟨some store, ∅⟩ = true from rfl), get?_some]
  dsimp only
  cases (CacheStore.get now key store).1.toOption.join.filter accept with
  | some value => rfl
  | none =>
    rw [enter_empty, get?_some]
    dsimp only
    cases (CacheStore.get now key (CacheStore.get now key store).2).1.toOption.join.filter accept with
    | some value =>
      dsimp only
      rw [leave_insert]
    | none =>
      dsimp only
      rcases build world with ⟨e | value, world'⟩
      · dsimp only
        rw [leave_insert]
      · dsimp only
        rw [set_some, leave_insert]

/-- Finding or building is sound, and leaves no key in flight. -/
theorem getOrBuild_sound (store : Option σ) (now : Nat) (key : String) (accept : α → Bool)
    (build : ρ → Except ε α × ρ) (world : ρ) :
    ∃ events result store' world',
      (⟨store, ∅⟩ : CacheLayer σ).getOrBuild now key accept build world =
        (result, ⟨store', ∅⟩, world') ∧
      store'.isSome = store.isSome ∧
      LayerTrace now (some build) (store, world) events (store', world') ∧
      BuildSound store.isSome key accept events result := by
  rcases store with _ | store
  · exact ⟨_, _, none, _, rfl, rfl, .built rfl (.nil _),
      .of_built [] (fun _ h => absurd h List.not_mem_nil) rfl rfl fun _ _ => List.not_mem_nil⟩
  rw [getOrBuild_some]
  dsimp only
  rcases filter_join_toOption (CacheStore.get now key store).1 accept with
    ⟨value, hfilter, hfound, haccept⟩ | ⟨hfilter, hmissed⟩
  · rw [hfilter]
    exact ⟨_, _, _, _, rfl, rfl, .lookedUp key (.nil _), .of_found [_] (by simp [hfound]) haccept⟩
  rw [hfilter]
  generalize hnext : (CacheStore.get now key store).2 = next
  let looks := [(CacheStore.get now key store).1, (CacheStore.get now key next).1]
  -- Whatever comes next, it comes after two look-ups of the key.
  have htwice : ∀ {events : List (LayerEvent α ε)} {last : Option σ × ρ},
      LayerTrace now (some build) (some (CacheStore.get now key next).2, world) events last →
        LayerTrace now (some build) (some store, world) (lookUps key looks ++ events) last := by
    intro events last htrace
    subst hnext
    exact .lookedUp key (.lookedUp key htrace)
  rcases filter_join_toOption (CacheStore.get now key next).1 accept with
    ⟨value, hfilter', hfound, haccept⟩ | ⟨hfilter', hmissed'⟩
  · rw [hfilter']
    refine ⟨_, _, _, _, rfl, rfl, htwice (.nil _), ?_⟩
    rw [List.append_nil]
    exact .of_found looks (by simp [looks, hfound]) haccept
  have hnone : ∀ value, .ok (some value) ∈ looks → accept value = false := by
    intro value hmem
    rcases List.mem_pair.1 hmem with h | h
    · exact hmissed value h
    · exact hmissed' value h
  rw [hfilter']
  dsimp only
  have hbuilt : ∀ {events : List (LayerEvent α ε)} {last : Option σ × ρ},
      LayerTrace now (some build) (some (CacheStore.get now key next).2, (build world).2)
          events last →
        LayerTrace now (some build) (some store, world)
          (lookUps key looks ++ .built (build world).1 :: events) last :=
    fun htrace => htwice (.built rfl htrace)
  generalize build world = result at hbuilt ⊢
  rcases result with ⟨e | value, world'⟩
  · exact ⟨_, _, _, _, rfl, rfl, hbuilt (.nil _),
      .of_built looks hnone rfl rfl fun _ _ => List.not_mem_nil⟩
  · exact ⟨_, _, _, _, rfl, rfl, hbuilt (.wrote key value (.nil _)),
      .of_built looks hnone rfl rfl (by simp)⟩

/-- A call of a layer without locks is sound, and leaves none. -/
theorem perform_sound (store : Option σ) (now : Nat) (call : LayerCall α ε ρ) (world : ρ) :
    ∃ events answer store' world',
      call.perform now (⟨store, ∅⟩, world) = (answer, ⟨store', ∅⟩, world') ∧
      store'.isSome = store.isSome ∧
      LayerTrace now call.builder? (store, world) events (store', world') ∧
      call.Sound store.isSome events answer := by
  cases call with
  | get key =>
    rcases store with _ | store
    · exact ⟨[], .found none, none, world, rfl, rfl, .nil _, by simp, rfl⟩
    · refine ⟨_, .found (CacheStore.get now key store).1.toOption.join, _, _, rfl, rfl,
        .lookedUp key (.nil _), fun value => ?_, rfl⟩
      rw [join_toOption_eq_some_iff, List.mem_singleton, lookedUp.injEq, eq_comm]
      simp
  | set key value =>
    rcases store with _ | store
    · exact ⟨[], .stored, none, world, rfl, rfl, .nil _, rfl⟩
    · exact ⟨_, .stored, _, _, rfl, rfl, .wrote key value (.nil _), rfl⟩
  | touch key =>
    rcases store with _ | store
    · exact ⟨[], .touched false, none, world, rfl, rfl, .nil _, by simp, rfl⟩
    · refine ⟨_, .touched ((CacheStore.touch now key store).1.toOption.getD false), _, _, rfl, rfl,
        .renewed key (.nil _), ?_, rfl⟩
      rw [List.mem_singleton, renewed.injEq]
      rcases (CacheStore.touch now key store).1 with e | _ | _ <;> simp [Except.toOption]
  | getOrBuild key accept build =>
    obtain ⟨events, result, store', world', hresult, hstore, htrace, hsound⟩ :=
      getOrBuild_sound store now key accept build world
    refine ⟨events, .result result, store', world', ?_, hstore, htrace, hsound⟩
    rw [LayerCall.perform, hresult]

/-- No run leaves a lock, or takes the store away. -/
theorem afterCalls_eq (store : Option σ) (world : ρ) (calls : List (Nat × LayerCall α ε ρ)) :
    ∃ store' world', afterCalls calls (⟨store, ∅⟩, world) = (⟨store', ∅⟩, world') ∧
      store'.isSome = store.isSome := by
  induction calls using List.reverseRecOn with
  | nil => exact ⟨store, world, rfl, rfl⟩
  | append_singleton before call ih =>
    obtain ⟨store', world', hbefore, hstore⟩ := ih
    obtain ⟨_, _, store'', world'', hcall, hstore', -, -⟩ :=
      perform_sound store' call.1 call.2 world'
    refine ⟨store'', world'', ?_, hstore'.trans hstore⟩
    rw [afterCalls] at hbefore ⊢
    rw [List.foldl_append, hbefore, List.foldl_cons, hcall]
    rfl

/-- Every call of every run of a layer, with a store of any kind or without one, is sound: what
happens in it is a list of events for which its answer is one that the call may give. After the
call no key is in flight. -/
theorem sound_of_calls (store : Option σ) (world : ρ) (history : List (Nat × LayerCall α ε ρ))
    (now : Nat) (call : LayerCall α ε ρ) :
    let before := afterCalls history (⟨store, ∅⟩, world)
    let after := call.perform now before
    ∃ events, LayerTrace now call.builder? (before.1.store, before.2) events
        (after.2.1.store, after.2.2) ∧
      call.Sound store.isSome events after.1 ∧ after.2.1.inFlight = ∅ := by
  obtain ⟨store', world', hbefore, hstore⟩ := afterCalls_eq store world history
  obtain ⟨events, answer, store'', world'', hcall, -, htrace, hsound⟩ :=
    perform_sound store' now call world'
  dsimp only
  rw [hbefore, hcall]
  exact ⟨events, htrace, hstore ▸ hsound, rfl⟩

end CacheLayer

end ModelGraph
