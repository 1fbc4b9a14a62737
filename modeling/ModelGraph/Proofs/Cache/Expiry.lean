import ModelGraph.Cache.Store
import ModelGraph.Proofs.OrderedMap

/-!
# Sliding expiry

A store forgets lazily: an expired entry may stay until a look-up, a purge or a sweep meets it. None
of that can be seen from outside. Whether a key is found depends only on when it was last written or
found, and on nothing that happens to other keys.

## Main definitions

- `TtlStore.Action`, `TtlStore.Event` — what is done to a store, and when and with which answer
- `TtlStore.Session` — a store in use, with its history
- `TtlStore.lastWritten?`, `TtlStore.lastRenewal?` — what a history says about a key
- `TtlStore.Standing` — the value under a key and the time of its last renewal

## Main statements

- `TtlStore.Session.Agrees.perform` — one action keeps the store in agreement with its history
- `TtlStore.answers_of_run` — which look-ups of a run hit, and with which value
-/

namespace ModelGraph.TtlStore

variable {α : Type}

/-- What is done to a store, or the time that passes meanwhile. -/
inductive Action (α : Type) where
  | set (key : String) (value : α)
  | get (key : String)
  | touch (key : String)
  | purge
  | advance (duration : Nat)

/-- The key that an action is about. -/
def Action.key? : Action α → Option String
  | set key _ | get key | touch key => some key
  | purge | advance _ => none

inductive Answer (α : Type) where
  | got (result : Except StoreError (Option α))
  | touched (result : Except StoreError Bool)
  | silent

/-- An action, when it was done, and what was answered. -/
structure Event (α : Type) where
  time : Nat
  action : Action α
  answer : Answer α

/-- When which action was done. -/
def Event.stamp (event : Event α) : Nat × Action α := (event.time, event.action)

/-- Whether an event starts the lifetime of a key anew: a write, or a look-up that hits. -/
def Event.renews (key : String) (event : Event α) : Bool :=
  event.action.key? = some key &&
    match event.action, event.answer with
    | .set _ _, _ | .get _, .got (.ok (some _)) | .touch _, .touched (.ok true) => true
    | _, _ => false

/-- The value that an event writes under a key. -/
def Event.written? (key : String) (event : Event α) : Option α :=
  match event.action with
  | .set other value => if other = key then some value else none
  | _ => none

/-- The value of the latest write of a key. -/
def lastWritten? (key : String) (history : List (Event α)) : Option α :=
  (history.filterMap (Event.written? key)).getLast?

/-- The time of the latest write or hit of a key. -/
def lastRenewal? (key : String) (history : List (Event α)) : Option Nat :=
  (history.filter (Event.renews key)).getLast?.map Event.time

/-- The events about a key. -/
def eventsOn (key : String) (history : List (Event α)) : List (Event α) :=
  history.filter fun event => event.action.key? = some key

theorem eventsOn_append_of_eq {key : String} {history : List (Event α)} {event : Event α}
    (h : event.action.key? = some key) :
    eventsOn key (history ++ [event]) = eventsOn key history ++ [event] := by
  simp [eventsOn, h]

theorem eventsOn_append_of_ne {key : String} {history : List (Event α)} {event : Event α}
    (h : event.action.key? ≠ some key) :
    eventsOn key (history ++ [event]) = eventsOn key history := by
  simp [eventsOn, h]

/-- A store in use. -/
structure Session (α : Type) where
  now : Nat
  store : TtlStore α
  history : List (Event α)

namespace Session

/-- A session with a new store. -/
def start (now ttl : Nat) : Session α := ⟨now, .new now ttl, []⟩

/-- The answer to an action, and the time and the store after it. -/
def respond (session : Session α) : Action α → Answer α × Nat × TtlStore α
  | .set key value =>
    let (_, store) := CacheStore.set session.now key value session.store
    (.silent, session.now, store)
  | .get key =>
    let (result, store) := CacheStore.get session.now key session.store
    (.got result, session.now, store)
  | .touch key =>
    let (result, store) := CacheStore.touch session.now key session.store
    (.touched result, session.now, store)
  | .purge => (.silent, session.now, session.store.purge session.now)
  | .advance duration => (.silent, session.now + duration, session.store)

/-- The session after an action, which its history records. -/
def perform (session : Session α) (action : Action α) : Session α :=
  let (answer, now, store) := session.respond action
  ⟨now, store, session.history ++ [⟨session.now, action, answer⟩]⟩

/-- The session after actions on a new store. -/
def run (now ttl : Nat) (actions : List (Action α)) : Session α :=
  actions.foldl perform (start now ttl)

end Session

/-! ### The standing of one key -/

/-- The value under a key and the time of its last renewal. -/
abbrev Standing (α : Type) := Option (α × Nat)

namespace Standing

variable {ttl now later : Nat} {key : String} {standing : Standing α}

/-- The value, where it was renewed less than a lifetime ago. -/
def found? (ttl now : Nat) : Standing α → Option α
  | some (value, renewed) => if now - renewed < ttl then some value else none
  | none => none

/-- What is answered to an action on a key with this standing. -/
def answer (ttl now : Nat) (standing : Standing α) : Action α → Answer α
  | .get _ => .got (.ok (standing.found? ttl now))
  | .touch _ => .touched (.ok (standing.found? ttl now).isSome)
  | .set _ _ | .purge | .advance _ => .silent

/-- The standing after a look-up: a hit renews it, and a miss changes nothing. -/
def renew (ttl now : Nat) (standing : Standing α) : Standing α :=
  match standing.found? ttl now with
  | some value => some (value, now)
  | none => standing

/-- The standing of a key after an action. -/
def after (ttl : Nat) (key : String) (now : Nat) (standing : Standing α) : Action α → Standing α
  | .set other value => if other = key then some (value, now) else standing
  | .get other | .touch other => if other = key then standing.renew ttl now else standing
  | .purge | .advance _ => standing

/-- The standing of a key after timed actions. -/
def ofActions (ttl : Nat) (key : String) (actions : List (Nat × Action α)) : Standing α :=
  actions.foldl (fun standing timed => standing.after ttl key timed.1 timed.2) none

theorem found?_eq_some_iff {value : α} : standing.found? ttl now = some value ↔
    ∃ renewed, standing = some (value, renewed) ∧ now - renewed < ttl := by
  cases standing with
  | none => simp [found?]
  | some entry =>
    obtain ⟨other, renewed⟩ := entry
    simp only [found?, Option.ite_none_right_eq_some, Option.some.injEq, Prod.mk.injEq]
    constructor
    · rintro ⟨hlt, rfl⟩
      exact ⟨renewed, ⟨rfl, rfl⟩, hlt⟩
    · rintro ⟨_, ⟨rfl, rfl⟩, hlt⟩
      exact ⟨hlt, rfl⟩

/-- What has expired stays expired. -/
theorem found?_eq_none_of_le (h : standing.found? ttl now = none) (hle : now ≤ later) :
    standing.found? ttl later = none := by
  by_contra hne
  obtain ⟨value, hvalue⟩ := Option.ne_none_iff_exists'.1 hne
  obtain ⟨renewed, hstanding, hlt⟩ := found?_eq_some_iff.1 hvalue
  have hnow : standing.found? ttl now = some value :=
    found?_eq_some_iff.2 ⟨renewed, hstanding, by omega⟩
  rw [h] at hnow
  cases hnow

/-- A look-up that hits makes its value last for another lifetime. -/
theorem found?_renew (hle : now ≤ later) : (standing.renew ttl now).found? ttl later =
    if later < now + ttl then standing.found? ttl now else none := by
  rw [renew]
  cases hfound : standing.found? ttl now with
  | none =>
    rw [ite_self]
    exact found?_eq_none_of_le hfound hle
  | some value =>
    have hiff : later - now < ttl ↔ later < now + ttl := by omega
    simp only [found?, hiff]

theorem after_of_ne {action : Action α} (h : action.key? ≠ some key) :
    standing.after ttl key now action = standing := by
  cases action with
  | set other _ | get other | touch other => exact if_neg fun heq => h (congrArg some heq)
  | purge | advance => rfl

theorem ofActions_append (actions : List (Nat × Action α)) (timed : Nat × Action α) :
    ofActions ttl key (actions ++ [timed]) =
      (ofActions ttl key actions).after ttl key timed.1 timed.2 := by
  simp [ofActions]

/-- Only the events about a key count for its standing. -/
theorem ofActions_eventsOn (history : List (Event α)) :
    ofActions ttl key ((eventsOn key history).map Event.stamp) =
      ofActions ttl key (history.map Event.stamp) := by
  induction history using List.reverseRecOn with
  | nil => rfl
  | append_singleton history event ih =>
    rw [List.map_append, List.map_singleton, ofActions_append]
    by_cases h : event.action.key? = some key
    · rw [eventsOn_append_of_eq h, List.map_append, List.map_singleton, ofActions_append, ih]
    · rw [eventsOn_append_of_ne h, ih]
      exact (after_of_ne h).symm

end Standing

/-! ### What a store shows -/

section Visible

variable {store : TtlStore α} {now later : Nat} {key other : String}

/-- The value that a look-up finds under a key, at a time. -/
def visible? (later : Nat) (key : String) (store : TtlStore α) : Option α :=
  match store.entries.get? key with
  | some entry => if later < entry.expiresAt then some entry.value else none
  | none => none

theorem fst_refresh : (store.refresh now key).1 = store.visible? now key := by
  rw [refresh, visible?]
  cases store.entries.get? key with
  | none => rfl
  | some entry =>
    dsimp only
    split <;> rfl

theorem ttl_refresh : (store.refresh now key).2.ttl = store.ttl := by
  rw [refresh]
  split
  · rfl
  · split <;> rfl

/-- A hit is visible for a lifetime; a miss takes away only what was not visible any more. -/
theorem visible?_refresh : (store.refresh now key).2.visible? later other =
    if key = other then if later < now + store.ttl then store.visible? now key else none
    else store.visible? later other := by
  simp only [refresh, visible?]
  cases hget : store.entries.get? key with
  | none =>
    by_cases heq : key = other
    · subst heq
      simp [hget]
    · rw [if_neg heq]
  | some entry =>
    by_cases hlt : now < entry.expiresAt
    · by_cases heq : key = other <;> simp [hlt, heq, OrderedMap.get?_insert]
    · by_cases heq : key = other <;> simp [hlt, heq, OrderedMap.get?_erase]

/-- A purge takes away nothing that was visible. -/
theorem visible?_purge (hle : now ≤ later) :
    (store.purge now).visible? later other = store.visible? later other := by
  have hmem : ∀ entry, (store.purge now).entries.get? other = some entry ↔
      store.entries.get? other = some entry ∧ now < entry.expiresAt := by
    intro entry
    rw [OrderedMap.get?_eq_some_iff, OrderedMap.get?_eq_some_iff]
    exact List.mem_filter.trans (by simp)
  rw [visible?, visible?]
  cases hget : store.entries.get? other with
  | none =>
    cases hpurged : (store.purge now).entries.get? other with
    | none => rfl
    | some entry => simp [hmem, hget] at hpurged
  | some entry =>
    by_cases hlt : now < entry.expiresAt
    · rw [(hmem entry).2 ⟨hget, hlt⟩]
    · have hnot : ¬ later < entry.expiresAt := by omega
      cases hpurged : (store.purge now).entries.get? other with
      | none => exact (if_neg hnot).symm
      | some found =>
        obtain ⟨hfound, hexpires⟩ := (hmem found).1 hpurged
        rw [hget, Option.some.injEq] at hfound
        exact absurd (hfound ▸ hexpires) hlt

theorem visible?_sweep (hle : now ≤ later) :
    (store.sweep now).visible? later other = store.visible? later other := by
  rw [sweep]
  split
  · rfl
  · exact visible?_purge hle

theorem ttl_sweep : (store.sweep now).ttl = store.ttl := by
  rw [sweep]
  split <;> rfl

/-- A value that is written is visible for a lifetime, and nothing else changes. -/
theorem visible?_write (hle : now ≤ later) {value : α} :
    (store.write now key value).visible? later other =
      if key = other then if later < now + store.ttl then some value else none
      else store.visible? later other := by
  by_cases heq : key = other
  · subst heq
    simp only [write, visible?, OrderedMap.get?_insert_self, if_pos]
  · have hsweep : (store.sweep now).visible? later other = store.visible? later other :=
      visible?_sweep hle
    rw [if_neg heq, ← hsweep]
    simp only [write, visible?, OrderedMap.get?_insert_of_ne heq]

end Visible

/-! ### Sessions -/

namespace Session

variable {ttl : Nat} {session : Session α}

/-- The standing of a key by the history of a session. -/
def standing (ttl : Nat) (key : String) (session : Session α) : Standing α :=
  Standing.ofActions ttl key (session.history.map Event.stamp)

/-- The store of a session shows what its history says, now and later. -/
structure Agrees (ttl : Nat) (session : Session α) : Prop where
  ttl_eq : session.store.ttl = ttl
  visible : ∀ key later, session.now ≤ later →
    session.store.visible? later key = (session.standing ttl key).found? ttl later
  latest : ∀ key, session.standing ttl key =
    (lastWritten? key session.history).bind fun value =>
      (lastRenewal? key session.history).map fun renewed => (value, renewed)

theorem agrees_start (now : Nat) : (start now ttl : Session α).Agrees ttl where
  ttl_eq := rfl
  visible _ _ _ := rfl
  latest _ := rfl

theorem history_perform (action : Action α) : (session.perform action).history =
    session.history ++ [⟨session.now, action, (session.respond action).1⟩] := rfl

theorem standing_perform (action : Action α) (key : String) :
    (session.perform action).standing ttl key =
      (session.standing ttl key).after ttl key session.now action := by
  rw [standing, history_perform, List.map_append, List.map_singleton, Standing.ofActions_append]
  rfl

/-- A store in agreement with its history answers as the standing of the key says. -/
theorem Agrees.answer (h : session.Agrees ttl) {action : Action α} {key : String}
    (hkey : action.key? = some key) :
    (session.respond action).1 = (session.standing ttl key).answer ttl session.now action := by
  cases action with
  | set | purge | advance => rfl
  | get other | touch other =>
    obtain rfl : other = key := Option.some.inj hkey
    have hfound := h.visible other session.now (Nat.le_refl _)
    rw [← fst_refresh] at hfound
    rw [Standing.answer, ← hfound]
    rfl

/-- One action keeps the store in agreement: what a look-up, a purge or a sweep drops was not
visible any more. -/
theorem Agrees.visible_perform (h : session.Agrees ttl) (action : Action α) (key : String)
    {later : Nat} (hle : (session.perform action).now ≤ later) :
    (session.perform action).store.visible? later key =
      ((session.perform action).standing ttl key).found? ttl later := by
  have hnow : session.now ≤ (session.perform action).now := by
    cases action with
    | advance duration => exact Nat.le_add_right _ _
    | set | get | touch | purge => exact Nat.le_refl _
  have hlater : session.now ≤ later := Nat.le_trans hnow hle
  have hsame := h.visible key later hlater
  rw [standing_perform]
  cases action with
  | set other value =>
    change (session.store.write session.now other value).visible? later key = _
    rw [visible?_write hlater, h.ttl_eq, Standing.after, hsame]
    by_cases heq : other = key
    · have hiff : later - session.now < ttl ↔ later < session.now + ttl := by omega
      simp only [heq, if_true, Standing.found?, hiff]
    · rw [if_neg heq, if_neg heq]
  | get other | touch other =>
    change (session.store.refresh session.now other).2.visible? later key = _
    rw [visible?_refresh, h.ttl_eq, Standing.after, hsame,
      h.visible other session.now (Nat.le_refl _)]
    by_cases heq : other = key
    · rw [if_pos heq, if_pos heq, Standing.found?_renew hlater, heq]
    · rw [if_neg heq, if_neg heq]
  | purge => exact (visible?_purge hlater).trans hsame
  | advance duration => exact hsame

theorem written?_of_ne {event : Event α} {key : String} (h : event.action.key? ≠ some key) :
    event.written? key = none := by
  obtain ⟨time, action, answer⟩ := event
  cases action with
  | set other _ => exact if_neg fun heq => h (congrArg some heq)
  | get | touch | purge | advance => rfl

theorem renews_of_ne {event : Event α} {key : String} (h : event.action.key? ≠ some key) :
    event.renews key = false := by
  rw [Event.renews, decide_eq_false h, Bool.false_and]

theorem lastWritten?_append (key : String) (history : List (Event α)) (event : Event α) :
    lastWritten? key (history ++ [event]) =
      (event.written? key).or (lastWritten? key history) := by
  rw [lastWritten?, lastWritten?, List.filterMap_append, List.getLast?_append]
  cases h : event.written? key <;> simp [h]

theorem lastRenewal?_append (key : String) (history : List (Event α)) (event : Event α) :
    lastRenewal? key (history ++ [event]) =
      if event.renews key then some event.time else lastRenewal? key history := by
  rw [lastRenewal?, lastRenewal?, List.filter_append, List.getLast?_append]
  cases h : event.renews key <;> simp [h]

/-- One action keeps the standing of a key to be its latest write and its latest renewal. -/
theorem Agrees.latest_perform (h : session.Agrees ttl) (action : Action α) (key : String) :
    (session.perform action).standing ttl key =
      (lastWritten? key (session.perform action).history).bind fun value =>
        (lastRenewal? key (session.perform action).history).map
          fun renewed => (value, renewed) := by
  have hlatest := h.latest key
  rw [standing_perform, history_perform, lastWritten?_append, lastRenewal?_append]
  by_cases hkey : action.key? = some key
  · rw [h.answer hkey]
    cases action with
    | set other value =>
      obtain rfl : other = key := Option.some.inj hkey
      simp [Standing.after, Event.written?, Event.renews, Action.key?]
    | get other | touch other =>
      obtain rfl : other = key := Option.some.inj hkey
      rw [Standing.after, if_pos rfl, Standing.renew, Standing.answer]
      cases hfound : (session.standing ttl other).found? ttl session.now with
      | none =>
        simpa [Event.written?, Event.renews] using hlatest
      | some value =>
        -- The value that is found is the one that was written last.
        obtain ⟨renewed, hstanding, -⟩ := Standing.found?_eq_some_iff.1 hfound
        rw [hstanding] at hlatest
        obtain ⟨written, hwritten, hsome⟩ := Option.bind_eq_some_iff.1 hlatest.symm
        obtain ⟨_, -, hpair⟩ := Option.map_eq_some_iff.1 hsome
        cases hpair
        simp [Event.written?, Event.renews, Action.key?, hwritten]
    | purge | advance => cases hkey
  · rw [Standing.after_of_ne hkey, written?_of_ne hkey, renews_of_ne hkey]
    exact hlatest

theorem Agrees.perform (h : session.Agrees ttl) (action : Action α) :
    (session.perform action).Agrees ttl where
  ttl_eq := by
    cases action with
    | set key value => exact ttl_sweep.trans h.ttl_eq
    | get key | touch key => exact ttl_refresh.trans h.ttl_eq
    | purge | advance => exact h.ttl_eq
  visible key _ hle := h.visible_perform action key hle
  latest := h.latest_perform action

theorem run_append (now : Nat) (actions : List (Action α)) (action : Action α) :
    run now ttl (actions ++ [action]) = (run now ttl actions).perform action := by
  simp [run]

theorem agrees_run (now : Nat) (actions : List (Action α)) : (run now ttl actions).Agrees ttl := by
  induction actions using List.reverseRecOn with
  | nil => exact agrees_start now
  | append_singleton actions action ih =>
    rw [run_append]
    exact ih.perform action

theorem actions_run (now : Nat) (actions : List (Action α)) :
    (run now ttl actions).history.map Event.action = actions := by
  induction actions using List.reverseRecOn with
  | nil => rfl
  | append_singleton actions action ih =>
    rw [run_append, history_perform, List.map_append, ih, List.map_singleton]

/-- Every event in the history of a run is the answer of the session before it. -/
theorem exists_run_of_history {now : Nat} {actions : List (Action α)}
    {before after : List (Event α)} {event : Event α}
    (h : (run now ttl actions).history = before ++ event :: after) :
    ∃ front, (run now ttl front).history = before ∧ (run now ttl front).now = event.time ∧
      event.answer = ((run now ttl front).respond event.action).1 := by
  induction actions using List.reverseRecOn generalizing after with
  | nil => simp [run, start] at h
  | append_singleton actions action ih =>
    rw [run_append, history_perform] at h
    cases after using List.reverseRecOn with
    | nil =>
      obtain ⟨hbefore, hevent⟩ := List.append_inj' h rfl
      obtain rfl := List.singleton_inj.1 hevent
      exact ⟨actions, hbefore, rfl, rfl⟩
    | append_singleton after last =>
      rw [← List.cons_append, ← List.append_assoc] at h
      exact ih (List.append_inj' h rfl).1

end Session

/-! ### Look-ups -/

namespace Standing

/-- The events about a key when nothing else is done, each answered by the standing so far. -/
def replay (ttl : Nat) (key : String) : Standing α → List (Nat × Action α) → List (Event α)
  | _, [] => []
  | standing, (time, action) :: rest =>
    ⟨time, action, standing.answer ttl time action⟩
      :: replay ttl key (standing.after ttl key time action) rest

theorem replay_append {ttl : Nat} {key : String} (standing : Standing α)
    (actions : List (Nat × Action α)) (timed : Nat × Action α) :
    replay ttl key standing (actions ++ [timed]) = replay ttl key standing actions ++
      [⟨timed.1, timed.2, answer ttl timed.1
        (actions.foldl (fun standing timed => standing.after ttl key timed.1 timed.2) standing)
        timed.2⟩] := by
  induction actions generalizing standing with
  | nil => rfl
  | cons first rest ih =>
    rw [List.cons_append, replay, ih, List.foldl_cons, replay, List.cons_append]

end Standing

/-- What a run answers about a key is what the actions on it alone and their times give. -/
theorem eventsOn_run {ttl now : Nat} {actions : List (Action α)} (key : String) :
    eventsOn key (Session.run now ttl actions).history =
      Standing.replay ttl key none
        ((eventsOn key (Session.run now ttl actions).history).map Event.stamp) := by
  induction actions using List.reverseRecOn with
  | nil => rfl
  | append_singleton actions action ih =>
    let session := Session.run now ttl actions
    rw [Session.run_append, Session.history_perform]
    by_cases hkey : action.key? = some key
    · rw [eventsOn_append_of_eq hkey, List.map_append, List.map_singleton, Standing.replay_append,
        ← ih]
      have hstanding := @Standing.ofActions_eventsOn _ ttl key session.history
      rw [Standing.ofActions] at hstanding
      rw [hstanding, (Session.agrees_run now actions).answer hkey]
      rfl
    · rw [eventsOn_append_of_ne hkey]
      exact ih

/-- In every run of a store, a look-up of a key hits exactly when the key was written before and its
latest renewal, a write or a hit, is less than a lifetime ago; it then finds the value that was
written last. Two runs that do the same to a key at the same times answer the same about it,
whatever else they do. -/
theorem answers_of_run (start ttl : Nat) (actions : List (Action α)) (key : String) :
    (Session.run start ttl actions).history.map Event.action = actions ∧
    (∀ before event after, (Session.run start ttl actions).history = before ++ event :: after →
      (event.action = .get key → ∃ hit, event.answer = .got (.ok hit) ∧
        ∀ value, hit = some value ↔ lastWritten? key before = some value ∧
          ∃ renewed, lastRenewal? key before = some renewed ∧ event.time - renewed < ttl) ∧
      (event.action = .touch key → ∃ hit, event.answer = .touched (.ok hit) ∧
        (hit = true ↔ (∃ value, lastWritten? key before = some value) ∧
          ∃ renewed, lastRenewal? key before = some renewed ∧ event.time - renewed < ttl))) ∧
    ∀ otherStart otherActions,
      (eventsOn key (Session.run otherStart ttl otherActions).history).map Event.stamp =
        (eventsOn key (Session.run start ttl actions).history).map Event.stamp →
      eventsOn key (Session.run otherStart ttl otherActions).history =
        eventsOn key (Session.run start ttl actions).history := by
  refine ⟨Session.actions_run start actions, fun before event after hhistory => ?_,
    fun otherStart otherActions hsame => ?_⟩
  · obtain ⟨front, rfl, htime, hanswer⟩ := Session.exists_run_of_history hhistory
    have hagrees : (Session.run start ttl front).Agrees ttl := Session.agrees_run start front
    let standing := (Session.run start ttl front).standing ttl key
    have hfound : ∀ value, standing.found? ttl event.time = some value ↔
        lastWritten? key (Session.run start ttl front).history = some value ∧
          ∃ renewed, lastRenewal? key (Session.run start ttl front).history = some renewed ∧
            event.time - renewed < ttl := by
      intro value
      have hlatest : standing = _ := hagrees.latest key
      rw [Standing.found?_eq_some_iff, hlatest]
      simp only [Option.bind_eq_some_iff, Option.map_eq_some_iff, Prod.mk.injEq]
      constructor
      · rintro ⟨_, ⟨_, hwritten, _, hrenewed, rfl, rfl⟩, hlt⟩
        exact ⟨hwritten, _, hrenewed, hlt⟩
      · rintro ⟨hwritten, renewed, hrenewed, hlt⟩
        exact ⟨renewed, ⟨value, hwritten, renewed, hrenewed, rfl, rfl⟩, hlt⟩
    rw [← htime] at hfound ⊢
    constructor
    · intro hget
      rw [hget, hagrees.answer rfl] at hanswer
      exact ⟨_, hanswer, hfound⟩
    · intro htouch
      rw [htouch, hagrees.answer rfl] at hanswer
      refine ⟨_, hanswer, Option.isSome_iff_exists.trans ?_⟩
      rw [exists_congr hfound]
      exact exists_and_right
  · rw [eventsOn_run, hsame, ← eventsOn_run]

/-- A key that is read and touched in time, and read again just when its lifetime is over, while
another key is written and expired entries are purged. -/
def slidingActions : List (Action Nat) :=
  [.set "a" 1, .advance 8, .get "a", .set "b" 2, .advance 8, .purge, .touch "a", .advance 10,
    .get "a"]

/-- The same actions on the first key, without any of the others. -/
def bareActions : List (Action Nat) :=
  [.set "a" 1, .advance 8, .get "a", .advance 8, .touch "a", .advance 10, .get "a"]

theorem answers_of_slidingActions :
    let history := (Session.run 0 10 slidingActions).history
    (∃ before event after, history = before ++ event :: after ∧ event.action = .touch "a" ∧
      event.time = 16 ∧ lastRenewal? "a" before = some 8 ∧ event.answer = .touched (.ok true)) ∧
    (∃ before event after, history = before ++ event :: after ∧ event.action = .get "a" ∧
      event.time = 26 ∧ lastRenewal? "a" before = some 16 ∧ event.answer = .got (.ok none)) ∧
    eventsOn "a" (Session.run 0 10 bareActions).history = eventsOn "a" history := by
  intro history
  obtain ⟨-, hlookups, hsame⟩ := answers_of_run 0 10 slidingActions "a"
  have htouch : history = history.take 6 ++ history[6] :: history.drop 7 := rfl
  have hget : history = history.take 8 ++ history[8] :: history.drop 9 := rfl
  have htimes : history[6].time = 16 ∧ history[8].time = 26 := ⟨rfl, rfl⟩
  have hwritten : lastWritten? "a" (history.take 6) = some 1 := by decide +kernel
  have hearly : lastRenewal? "a" (history.take 6) = some 8 := by decide +kernel
  have hlate : lastRenewal? "a" (history.take 8) = some 16 := by decide +kernel
  obtain ⟨hit, htouched, hhit⟩ := (hlookups _ _ _ htouch).2 rfl
  obtain ⟨found, hgot, hfound⟩ := (hlookups _ _ _ hget).1 rfl
  have hhit : hit = true := hhit.2 ⟨⟨1, hwritten⟩, 8, hearly, by omega⟩
  have hmiss : found = none := by
    refine Option.eq_none_iff_forall_ne_some.2 fun value hvalue => ?_
    obtain ⟨-, renewed, hlast, hlt⟩ := (hfound value).1 hvalue
    rw [hlate] at hlast
    obtain rfl := Option.some.inj hlast
    omega
  refine ⟨⟨_, _, _, htouch, rfl, htimes.1, hearly, ?_⟩, ⟨_, _, _, hget, rfl, htimes.2, hlate, ?_⟩,
    hsame 0 bareActions rfl⟩
  · rw [htouched, hhit]
  · rw [hgot, hmiss]

end ModelGraph.TtlStore
