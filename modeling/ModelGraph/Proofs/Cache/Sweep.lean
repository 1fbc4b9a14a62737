import ModelGraph.Proofs.Cache.Expiry

/-!
# Entries that nobody renews

An entry that nobody renews stays in the store until a purge, or a write that finds a sweep due,
drops it. Sweeps are a lifetime apart at least, so an expired entry may live through a write that
comes early. It does not live through two sweeps: what the last sweep left had not expired by then,
and the next sweep is due a lifetime later. So what is in a store was renewed less than two
lifetimes before the last write, and less than one before the last purge.

## Main definitions

- `TtlStore.Session.Swept` — how the expiry of entries, their renewals and the sweeps go together

## Main statements

- `TtlStore.Session.entry_perform` — what one action does to the entry of a key
- `TtlStore.Session.Swept.perform` — one action keeps renewals and sweeps in step
- `TtlStore.renewed_of_run` — how long ago the entries of a store were renewed
-/

namespace ModelGraph.TtlStore

variable {α : Type}

section Store

variable {store : TtlStore α} {now : Nat} {key other : String} {entry : Expiring α}

theorem get?_purge : (store.purge now).entries.get? key = some entry ↔
    store.entries.get? key = some entry ∧ now < entry.expiresAt := by
  rw [OrderedMap.get?_eq_some_iff, OrderedMap.get?_eq_some_iff]
  exact List.mem_filter.trans (by simp)

/-- What is there after a sweep was there before. -/
theorem get?_of_sweep (h : (store.sweep now).entries.get? key = some entry) :
    store.entries.get? key = some entry := by
  rw [sweep] at h
  split at h
  · exact h
  · exact (get?_purge.1 h).1

theorem nextSweep_sweep : (store.sweep now).nextSweep =
    if now < store.nextSweep then store.nextSweep else now + store.ttl := by
  rw [sweep]
  split <;> rfl

/-- A sweep that is due leaves nothing that has expired. -/
theorem lt_of_sweep (hdue : ¬ now < store.nextSweep)
    (h : (store.sweep now).entries.get? key = some entry) : now < entry.expiresAt := by
  rw [sweep, if_neg hdue] at h
  exact (get?_purge.1 h).2

/-- After a look-up an entry is the one that was hit, with a new lifetime, or it is as before and
was not hit. -/
theorem get?_of_refresh (h : (store.refresh now key).2.entries.get? other = some entry) :
    (key = other ∧ (store.refresh now key).1.isSome ∧ entry.expiresAt = now + store.ttl) ∨
      (¬ (key = other ∧ (store.refresh now key).1.isSome) ∧
        store.entries.get? other = some entry) := by
  rw [refresh] at h ⊢
  cases hget : store.entries.get? key with
  | none =>
    simp only [hget] at h ⊢
    exact .inr ⟨by simp, h⟩
  | some found =>
    simp only [hget] at h ⊢
    by_cases hlive : now < found.expiresAt
    · simp only [if_pos hlive, OrderedMap.get?_insert] at h ⊢
      by_cases heq : key = other
      · rw [if_pos heq] at h
        obtain rfl := Option.some.inj h
        exact .inl ⟨heq, rfl, rfl⟩
      · rw [if_neg heq] at h
        exact .inr ⟨fun hhit => heq hhit.1, h⟩
    · simp only [if_neg hlive, OrderedMap.get?_erase] at h ⊢
      split at h
      · cases h
      · exact .inr ⟨by simp, h⟩

end Store

namespace Session

variable {ttl : Nat} {session : Session α}

/-- The event that an action adds to the history. -/
def eventOf (session : Session α) (action : Action α) : Event α :=
  ⟨session.now, action, (session.respond action).1⟩

theorem renews_eventOf_set {written key : String} {value : α} :
    (session.eventOf (.set written value)).renews key = true ↔ written = key := by
  simp [eventOf, Event.renews, Action.key?]

theorem renews_eventOf_get {read key : String} :
    (session.eventOf (.get read)).renews key = true ↔
      read = key ∧ (session.store.refresh session.now read).1.isSome := by
  cases hfound : (session.store.refresh session.now read).1 <;>
    simp [eventOf, Event.renews, Action.key?, respond, CacheStore.get, hfound]

theorem renews_eventOf_touch {read key : String} :
    (session.eventOf (.touch read)).renews key = true ↔
      read = key ∧ (session.store.refresh session.now read).1.isSome := by
  cases hfound : (session.store.refresh session.now read).1 <;>
    simp [eventOf, Event.renews, Action.key?, respond, CacheStore.touch, hfound]

/-- After an action an entry is renewed by it and lasts for a lifetime, or it is as before and not
renewed. -/
theorem entry_perform (hagrees : session.Agrees ttl) {action : Action α} {key : String}
    {entry : Expiring α} (hget : (session.perform action).store.entries.get? key = some entry) :
    ((session.eventOf action).renews key = true ∧ entry.expiresAt = session.now + ttl) ∨
      (¬ (session.eventOf action).renews key = true ∧
        session.store.entries.get? key = some entry) := by
  rw [← hagrees.ttl_eq]
  cases action with
  | set written value =>
    rw [renews_eventOf_set]
    change ((session.store.sweep session.now).entries.insert written _).get? key = _ at hget
    rw [OrderedMap.get?_insert] at hget
    by_cases heq : written = key
    · rw [if_pos heq] at hget
      obtain rfl := Option.some.inj hget
      exact .inl ⟨heq, rfl⟩
    · rw [if_neg heq] at hget
      exact .inr ⟨heq, get?_of_sweep hget⟩
  | get read =>
    rw [renews_eventOf_get, and_assoc]
    exact get?_of_refresh hget
  | touch read =>
    rw [renews_eventOf_touch, and_assoc]
    exact get?_of_refresh hget
  | purge => exact .inr ⟨Bool.false_ne_true, (get?_purge.1 hget).1⟩
  | advance duration => exact .inr ⟨Bool.false_ne_true, hget⟩

/-- An action leaves the time of the next sweep, or sets it a lifetime ahead and then leaves nothing
that has expired. -/
theorem nextSweep_perform (hagrees : session.Agrees ttl) (httl : 0 < ttl) (action : Action α) :
    (session.perform action).store.nextSweep = session.store.nextSweep ∨
      ((session.perform action).store.nextSweep = session.now + ttl ∧
        ∀ key entry, (session.perform action).store.entries.get? key = some entry →
          session.now < entry.expiresAt) := by
  cases action with
  | set written value =>
    have hnext : (session.perform (.set written value)).store.nextSweep =
        (session.store.sweep session.now).nextSweep := rfl
    rw [hnext, nextSweep_sweep]
    by_cases hdue : session.now < session.store.nextSweep
    · exact .inl (if_pos hdue)
    · rw [if_neg hdue]
      refine .inr ⟨congrArg (session.now + ·) hagrees.ttl_eq, fun key entry hget => ?_⟩
      change ((session.store.sweep session.now).entries.insert written _).get? key = _ at hget
      rw [OrderedMap.get?_insert] at hget
      split at hget
      · obtain rfl := Option.some.inj hget
        rw [hagrees.ttl_eq]
        exact Nat.lt_add_of_pos_right httl
      · exact lt_of_sweep hdue hget
  | get read | touch read =>
    apply Or.inl
    change (session.store.refresh session.now read).2.nextSweep = _
    rw [refresh]
    split
    · rfl
    · split <;> rfl
  | purge | advance => exact .inl rfl

theorem now_le_perform (action : Action α) : session.now ≤ (session.perform action).now := by
  cases action with
  | advance duration => exact Nat.le_add_right _ _
  | set | get | touch | purge => exact Nat.le_refl _

/-! ### Renewals and sweeps -/

/-- How the expiry of entries, their renewals and the sweeps go together. The last sweep, or the
start, was a lifetime before the next one. -/
structure Swept (ttl : Nat) (session : Session α) : Prop where
  nextSweep_le : session.store.nextSweep ≤ session.now + ttl
  /-- An entry expires a lifetime after it was last renewed. -/
  expiresAt : ∀ key entry, session.store.entries.get? key = some entry →
    ∃ renewed, lastRenewal? key session.history = some renewed ∧ entry.expiresAt = renewed + ttl
  /-- No entry had expired at the last sweep. -/
  outlives : ∀ key entry, session.store.entries.get? key = some entry →
    session.store.nextSweep < entry.expiresAt + ttl

theorem swept_start (now : Nat) : (start now ttl : Session α).Swept ttl where
  nextSweep_le := Nat.le_refl _
  expiresAt key entry hget := by cases hget
  outlives key entry hget := by cases hget

/-- One action keeps renewals and sweeps in step. -/
theorem Swept.perform (h : session.Swept ttl) (hagrees : session.Agrees ttl) (httl : 0 < ttl)
    (action : Action α) : (session.perform action).Swept ttl := by
  have hnow := session.now_le_perform action
  have hnext := h.nextSweep_le
  constructor
  · rcases nextSweep_perform hagrees httl action with hsame | ⟨hahead, -⟩
    · omega
    · omega
  · intro key entry hget
    have hrenewal : lastRenewal? key (session.perform action).history =
        if (session.eventOf action).renews key then some session.now
        else lastRenewal? key session.history :=
      lastRenewal?_append key session.history (session.eventOf action)
    rcases entry_perform hagrees hget with ⟨hrenews, hexpires⟩ | ⟨hnot, hbefore⟩
    · rw [hrenewal, if_pos hrenews]
      exact ⟨session.now, rfl, hexpires⟩
    · rw [hrenewal, if_neg hnot]
      exact h.expiresAt key entry hbefore
  · intro key entry hget
    rcases nextSweep_perform hagrees httl action with hsame | ⟨hahead, hlive⟩
    · rw [hsame]
      rcases entry_perform hagrees hget with ⟨-, hexpires⟩ | ⟨-, hbefore⟩
      · omega
      · exact h.outlives key entry hbefore
    · have hlater := hlive key entry hget
      omega

theorem swept_run (httl : 0 < ttl) (now : Nat) (actions : List (Action α)) :
    (run now ttl actions).Swept ttl := by
  induction actions using List.reverseRecOn with
  | nil => exact swept_start now
  | append_singleton actions action ih =>
    rw [run_append]
    exact ih.perform (agrees_run now actions) httl action

/-- A write is never done with a sweep due: it sweeps first. -/
theorem now_lt_nextSweep_set (hagrees : session.Agrees ttl) (httl : 0 < ttl) (written : String)
    (value : α) : session.now < (session.perform (.set written value)).store.nextSweep := by
  change session.now < (session.store.sweep session.now).nextSweep
  rw [nextSweep_sweep, hagrees.ttl_eq]
  split <;> omega

end Session

/-- Entries that nobody renews do not pile up. In every run of a store with a lifetime, whatever is
in the store right after a write was renewed, by a write or a hit, less than two lifetimes ago, and
right after a purge less than one lifetime ago. -/
theorem renewed_of_run {ttl : Nat} (httl : 0 < ttl) (start : Nat) (actions : List (Action α)) :
    let session := Session.run start ttl actions
    (∀ written value,
      let after := session.perform (.set written value)
      ∀ key entry, after.store.entries.get? key = some entry →
        ∃ renewed, lastRenewal? key after.history = some renewed ∧
          session.now < renewed + 2 * ttl) ∧
    (let after := session.perform .purge
      ∀ key entry, after.store.entries.get? key = some entry →
        ∃ renewed, lastRenewal? key after.history = some renewed ∧
          session.now < renewed + ttl) := by
  intro session
  have hagrees : session.Agrees ttl := Session.agrees_run start actions
  have hswept : session.Swept ttl := Session.swept_run httl start actions
  constructor
  · intro written value after key entry hget
    have hafter : after.Swept ttl := hswept.perform hagrees httl (.set written value)
    obtain ⟨renewed, hrenewed, hexpires⟩ := hafter.expiresAt key entry hget
    have hdue : session.now < after.store.nextSweep :=
      Session.now_lt_nextSweep_set hagrees httl written value
    have houtlives := hafter.outlives key entry hget
    exact ⟨renewed, hrenewed, by omega⟩
  · intro after key entry hget
    have hafter : after.Swept ttl := hswept.perform hagrees httl .purge
    obtain ⟨renewed, hrenewed, hexpires⟩ := hafter.expiresAt key entry hget
    have hlive : session.now < entry.expiresAt := (get?_purge.1 hget).2
    exact ⟨renewed, hrenewed, by omega⟩

/-- A key that is written just after the start, and others that are written later. The write at 19
comes before the sweep at 20 is due, so it leaves the first entry, which expired at 11. -/
def abandoningActions : List (Action Nat) :=
  [.advance 1, .set "a" 1, .advance 9, .set "b" 2, .advance 9]

theorem renewed_of_abandoningActions :
    let session := Session.run 0 10 abandoningActions
    let after := session.perform (.set "c" 3)
    0 < 10 ∧ session.now = 19 ∧ ∃ entry, after.store.entries.get? "a" = some entry ∧
      entry.expiresAt = 11 ∧ ∃ renewed, lastRenewal? "a" after.history = some renewed ∧
        19 < renewed + 2 * 10 := by
  intro session after
  have hget : after.store.entries.get? "a" = some ⟨1, 11⟩ := rfl
  have hrenewed := (renewed_of_run (by decide) 0 abandoningActions).1 "c" 3 "a" _ hget
  exact ⟨by decide, rfl, _, hget, rfl, hrenewed⟩

end ModelGraph.TtlStore
