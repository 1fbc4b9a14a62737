import Mathlib.Data.List.Basic

/-!
# Steps that succeed

A computation made of steps that may fail succeeds when each of its steps does.

## Main statements

- `bind_eq_ok_iff`, `map_eq_ok_iff`, `mapError_eq_ok_iff` — when a compound step succeeds
- `forM_eq_ok_iff` — when all checks of a list succeed
-/

namespace ModelGraph

/-- A sequence succeeds when both of its parts do. -/
theorem bind_eq_ok_iff {ε α β : Type} {first : Except ε α} {next : α → Except ε β} {result : β} :
    first >>= next = .ok result ↔ ∃ value, first = .ok value ∧ next value = .ok result := by
  cases first with
  | error e =>
    constructor
    · intro h
      cases h
    · rintro ⟨_, h, _⟩
      cases h
  | ok value =>
    constructor
    · intro h
      exact ⟨value, rfl, h⟩
    · rintro ⟨_, hvalue, h⟩
      cases hvalue
      exact h

theorem map_eq_ok_iff {ε α β : Type} {first : Except ε α} {f : α → β} {result : β} :
    first.map f = .ok result ↔ ∃ value, first = .ok value ∧ f value = result := by
  cases first with
  | error e =>
    constructor
    · intro h
      cases h
    · rintro ⟨_, h, _⟩
      cases h
  | ok value =>
    constructor
    · intro h
      exact ⟨value, rfl, Except.ok.inj h⟩
    · rintro ⟨_, hvalue, h⟩
      cases hvalue
      exact congrArg Except.ok h

theorem mapError_eq_ok_iff {ε δ α : Type} {result : Except ε α} {f : ε → δ} {value : α} :
    result.mapError f = .ok value ↔ result = .ok value := by
  cases result with
  | error e =>
    constructor <;> intro h <;> cases h
  | ok other =>
    constructor <;> intro h <;> cases h <;> rfl

theorem toOption_eq_some_iff {ε α : Type} {result : Except ε α} {value : α} :
    result.toOption = some value ↔ result = .ok value := by
  cases result with
  | error e => exact ⟨fun h => (by cases h), fun h => (by cases h)⟩
  | ok other => exact ⟨fun h => congrArg Except.ok (Option.some.inj h), fun h => by cases h; rfl⟩

theorem exists_eq_ok {ε α : Type} {result : Except ε α} (h : result.isOk = true) :
    ∃ value, result = .ok value := by
  cases result with
  | error e => cases h
  | ok value => exact ⟨value, rfl⟩

theorem exists_eq_error {ε α : Type} {result : Except ε α} (h : result.isOk = false) :
    ∃ error, result = .error error := by
  cases result with
  | error e => exact ⟨e, rfl⟩
  | ok value => cases h

theorem exists_eq_ok_of_any {ε α : Type} {result : Except ε α} {p : α → Bool}
    (h : result.toOption.any p = true) : ∃ value, result = .ok value ∧ p value = true := by
  cases result with
  | error e => cases h
  | ok value => exact ⟨value, rfl, h⟩

/-- A check of several values succeeds when each of them passes. -/
theorem forM_eq_ok_iff {ε α : Type} {check : α → Except ε Unit} {xs : List α} :
    xs.forM check = .ok () ↔ ∀ x ∈ xs, check x = .ok () := by
  induction xs with
  | nil => exact ⟨fun _ _ h => absurd h List.not_mem_nil, fun _ => rfl⟩
  | cons x rest ih =>
    change (check x >>= fun _ => rest.forM check) = .ok () ↔ _
    rw [bind_eq_ok_iff, List.forall_mem_cons, ← ih]
    exact ⟨fun ⟨_, h⟩ => h, fun h => ⟨(), h⟩⟩

theorem exists_of_forM_eq_error {ε α : Type} {check : α → Except ε Unit} {xs : List α} {error : ε}
    (h : xs.forM check = .error error) : ∃ x ∈ xs, check x = .error error := by
  induction xs with
  | nil => cases h
  | cons x rest ih =>
    change (check x >>= fun _ => rest.forM check) = .error error at h
    cases hx : check x with
    | error e =>
      rw [hx] at h
      cases h
      exact ⟨x, List.mem_cons_self .., hx⟩
    | ok =>
      rw [hx] at h
      obtain ⟨other, hother, hcheck⟩ := ih h
      exact ⟨other, List.mem_cons_of_mem _ hother, hcheck⟩

end ModelGraph
