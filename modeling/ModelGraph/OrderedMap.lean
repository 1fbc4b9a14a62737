/-!
# Insertion-ordered maps

A finite map that lists its entries in the order in which their keys first arrived. Overwriting
a key keeps its place; removing one closes the gap. `Assoc` holds the operations on plain lists of
pairs, which objects inside recursive data need, and `OrderedMap` packs such a list with the fact
that no key occurs twice.
-/

namespace ModelGraph

universe u v w

/-! ## Lists of pairs -/

namespace Assoc

variable {κ : Type u} {α : Type v} [DecidableEq κ]

/-- The value of the first pair with the given key. -/
def get? (key : κ) : List (κ × α) → Option α
  | [] => none
  | (k, a) :: rest => if k = key then some a else get? key rest

/-- Overwrites the value of the key in place, or appends the pair. -/
def put (key : κ) (value : α) : List (κ × α) → List (κ × α)
  | [] => [(key, value)]
  | (k, a) :: rest => if k = key then (k, value) :: rest else (k, a) :: put key value rest

/-- Removes the pairs with the given key. -/
def erase (key : κ) (pairs : List (κ × α)) : List (κ × α) :=
  pairs.filter fun pair => pair.1 ≠ key

/-- Puts every pair in turn: the first place and the last value of each key remain. -/
def collect (pairs : List (κ × α)) : List (κ × α) :=
  pairs.foldl (fun acc pair => put pair.1 pair.2 acc) []

/-- The keys, in order. -/
def keys (pairs : List (κ × α)) : List κ :=
  pairs.map Prod.fst

/-- What the values count for together. -/
def total (count : α → Nat) : List (κ × α) → Nat
  | [] => 0
  | pair :: rest => count pair.2 + total count rest

theorem mem_keys_put {key k : κ} {value : α} {pairs : List (κ × α)} :
    k ∈ keys (put key value pairs) ↔ k = key ∨ k ∈ keys pairs := by
  induction pairs with
  | nil => simp [put, keys]
  | cons head rest ih =>
    by_cases h : head.1 = key
    · simp [put, keys, h]
    · simp only [put, if_neg h, keys, List.map_cons, List.mem_cons]
      rw [show List.map Prod.fst (put key value rest) = keys (put key value rest) from rfl, ih]
      simp only [keys]
      constructor
      · rintro (h | h | h) <;> simp [h]
      · rintro (h | h | h) <;> simp [h]

theorem nodup_keys_put {key : κ} {value : α} {pairs : List (κ × α)}
    (h : (keys pairs).Nodup) : (keys (put key value pairs)).Nodup := by
  induction pairs with
  | nil => simp [put, keys]
  | cons head rest ih =>
    obtain ⟨hhead, hrest⟩ := List.nodup_cons.1 h
    by_cases hk : head.1 = key
    · simpa [put, keys, hk] using h
    · simp only [put, if_neg hk]
      refine List.nodup_cons.2 ⟨fun hmem => ?_, ih hrest⟩
      rcases mem_keys_put.1 hmem with h' | h'
      · exact hk h'
      · exact hhead h'

theorem nodup_keys_erase {key : κ} {pairs : List (κ × α)}
    (h : (keys pairs).Nodup) : (keys (erase key pairs)).Nodup :=
  h.sublist (List.filter_sublist.map _)

theorem get?_put {key k : κ} {value : α} {pairs : List (κ × α)} :
    get? k (put key value pairs) = if key = k then some value else get? k pairs := by
  induction pairs with
  | nil => simp [put, get?]
  | cons head rest ih =>
    by_cases h : head.1 = key <;> by_cases hk : key = k <;> simp_all [put, get?]

theorem mem_keys_of_get? {key : κ} {value : α} {pairs : List (κ × α)}
    (h : get? key pairs = some value) : key ∈ keys pairs := by
  induction pairs with
  | nil => simp [get?] at h
  | cons head rest ih =>
    simp only [get?] at h
    split at h
    · next hk => simp [keys, hk]
    · exact List.mem_cons_of_mem _ (ih h)

theorem length_erase_lt {key : κ} {pairs : List (κ × α)} (h : key ∈ keys pairs) :
    (erase key pairs).length < pairs.length := by
  obtain ⟨pair, hmem, rfl⟩ := List.mem_map.1 h
  exact List.length_filter_lt_length_iff_exists.2 ⟨pair, hmem, by simp⟩

theorem total_erase_le_total (count : α → Nat) (key : κ) (pairs : List (κ × α)) :
    total count (erase key pairs) ≤ total count pairs := by
  induction pairs with
  | nil => exact Nat.le_refl _
  | cons head rest ih =>
    by_cases h : head.1 = key
    · simp only [erase, List.filter_cons, h, ne_eq, not_true_eq_false, decide_false,
        Bool.false_eq_true, if_false, total] at ih ⊢
      omega
    · simp only [erase, List.filter_cons, h, ne_eq, not_false_eq_true, decide_true, if_true,
        total] at ih ⊢
      omega

/-- Removing a key takes what its value counts for off the total. -/
theorem total_erase_le {key : κ} {value : α} {pairs : List (κ × α)} (count : α → Nat)
    (h : get? key pairs = some value) :
    total count (erase key pairs) + count value ≤ total count pairs := by
  induction pairs with
  | nil => simp [get?] at h
  | cons head rest ih =>
    simp only [get?] at h
    split at h
    · next hk =>
      obtain rfl := Option.some.inj h
      have hrest := total_erase_le_total count key rest
      simp only [erase, List.filter_cons, hk, ne_eq, not_true_eq_false, decide_false,
        Bool.false_eq_true, if_false, total] at hrest ⊢
      omega
    · next hk =>
      have hrest := ih h
      simp only [erase, List.filter_cons, hk, ne_eq, not_false_eq_true, decide_true, if_true,
        total] at hrest ⊢
      omega

end Assoc

/-! ## Maps -/

/-- A map from `κ` to `α` that keeps the order in which its keys first arrived. -/
structure OrderedMap (κ : Type u) (α : Type v) where
  /-- The entries, oldest key first. -/
  entries : List (κ × α)
  /-- No key occurs twice. -/
  nodup : (Assoc.keys entries).Nodup
deriving DecidableEq

namespace OrderedMap

variable {κ : Type u} {α : Type v} {β : Type w}

/-- The map without entries. -/
def empty : OrderedMap κ α := ⟨[], List.nodup_nil⟩

instance : EmptyCollection (OrderedMap κ α) := ⟨empty⟩

instance : Inhabited (OrderedMap κ α) := ⟨empty⟩

/-- The entries, oldest key first. -/
def toList (m : OrderedMap κ α) : List (κ × α) := m.entries

/-- The keys, oldest first. -/
def keys (m : OrderedMap κ α) : List κ := Assoc.keys m.entries

/-- The values, in the order of their keys. -/
def values (m : OrderedMap κ α) : List α := m.entries.map Prod.snd

/-- The number of keys. -/
def size (m : OrderedMap κ α) : Nat := m.entries.length

/-- What the values count for together. -/
def total (count : α → Nat) (m : OrderedMap κ α) : Nat := Assoc.total count m.entries

/-- Whether there is no entry. -/
def isEmpty (m : OrderedMap κ α) : Bool := m.entries.isEmpty

/-- Applies a function to every value. -/
def map (f : α → β) (m : OrderedMap κ α) : OrderedMap κ β where
  entries := m.entries.map fun entry => (entry.1, f entry.2)
  nodup := by simpa [Assoc.keys, Function.comp_def] using m.nodup

/-- Applies a function to every value, which may depend on the key. -/
def mapWithKey (f : κ → α → β) (m : OrderedMap κ α) : OrderedMap κ β where
  entries := m.entries.map fun entry => (entry.1, f entry.1 entry.2)
  nodup := by simpa [Assoc.keys, Function.comp_def] using m.nodup

/-- Keeps the entries that satisfy `p`. -/
def filter (p : κ → α → Bool) (m : OrderedMap κ α) : OrderedMap κ α where
  entries := m.entries.filter fun entry => p entry.1 entry.2
  nodup := m.nodup.sublist (List.filter_sublist.map _)

variable [DecidableEq κ]

/-- The value under a key. -/
def get? (m : OrderedMap κ α) (key : κ) : Option α := Assoc.get? key m.entries

/-- Whether a key is present. -/
def contains (m : OrderedMap κ α) (key : κ) : Bool := (m.get? key).isSome

/-- Overwrites the value under a key in place, or appends the key. -/
def insert (m : OrderedMap κ α) (key : κ) (value : α) : OrderedMap κ α :=
  ⟨Assoc.put key value m.entries, Assoc.nodup_keys_put m.nodup⟩

/-- Appends the key unless it is present already. -/
def insertIfNew (m : OrderedMap κ α) (key : κ) (value : α) : OrderedMap κ α :=
  if m.contains key then m else m.insert key value

/-- Removes a key and closes the gap. -/
def erase (m : OrderedMap κ α) (key : κ) : OrderedMap κ α :=
  ⟨Assoc.erase key m.entries, Assoc.nodup_keys_erase m.nodup⟩

/-- Inserts every pair in turn. -/
def insertMany (m : OrderedMap κ α) (pairs : List (κ × α)) : OrderedMap κ α :=
  pairs.foldl (fun acc pair => acc.insert pair.1 pair.2) m

/-- The map of a list of pairs: each key has its first place and its last value. -/
def ofList (pairs : List (κ × α)) : OrderedMap κ α :=
  empty.insertMany pairs

theorem get?_insert {m : OrderedMap κ α} {key k : κ} {value : α} :
    (m.insert key value).get? k = if key = k then some value else m.get? k :=
  Assoc.get?_put

theorem mem_keys_insert {m : OrderedMap κ α} {key k : κ} {value : α} :
    k ∈ (m.insert key value).keys ↔ k = key ∨ k ∈ m.keys :=
  Assoc.mem_keys_put

/-- Removing a key takes what its value counts for off the total. -/
theorem total_erase_le {m : OrderedMap κ α} {key : κ} {value : α} (count : α → Nat)
    (h : m.get? key = some value) : (m.erase key).total count + count value ≤ m.total count :=
  Assoc.total_erase_le count h

theorem size_erase_lt {m : OrderedMap κ α} {key : κ} {value : α}
    (h : m.get? key = some value) : (m.erase key).size < m.size :=
  Assoc.length_erase_lt (Assoc.mem_keys_of_get? h)

end OrderedMap

end ModelGraph
