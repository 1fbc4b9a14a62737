import Mathlib.Data.List.Nodup
import Mathlib.Data.List.Induction
import Mathlib.Data.List.Pairwise
import ModelGraph.OrderedMap

/-!
# Theory of insertion-ordered maps

A map is determined by its keys in order and its look-ups. The lemmas below say what each operation
does to these two views, and how a map reads that was filled from a list of pairs: each key stands
where it came first and has the value that came last.

## Main statements

- `OrderedMap.eq_of_keys_of_get?` — keys and look-ups determine a map
- `OrderedMap.entries_insert_of_notMem` — a new key goes to the end
- `OrderedMap.keys_ofList`, `OrderedMap.get?_ofList` — a map filled from a list of pairs
-/

namespace ModelGraph

universe u v w

variable {κ : Type u} {α : Type v}

/-- An element at the end stays if it is a new one. -/
theorem eraseDups_append_singleton [DecidableEq κ] (xs : List κ) (last : κ) :
    (xs ++ [last]).eraseDups =
      if last ∈ xs then xs.eraseDups else xs.eraseDups ++ [last] := by
  have hnew : [last].removeAll xs = if last ∈ xs then [] else [last] := by
    by_cases hmem : last ∈ xs <;> simp [List.removeAll, hmem]
  rw [List.eraseDups_append, hnew]
  split
  · rw [List.eraseDups_nil, List.append_nil]
  · rfl

/-- In a list with different keys an element is found by its key. -/
theorem find?_key_of_nodup [DecidableEq κ] {key : α → κ} {xs : List α} (h : (xs.map key).Nodup)
    {x : α} (hx : x ∈ xs) : (xs.find? fun y => key y = key x) = some x := by
  obtain ⟨y, hy⟩ : ∃ y, (xs.find? fun y => key y = key x) = some y :=
    Option.isSome_iff_exists.1 (List.find?_isSome.2 ⟨x, hx, decide_eq_true rfl⟩)
  have hkey : key y = key x := by simpa using List.find?_some hy
  rw [hy, List.inj_on_of_nodup_map h (List.mem_of_find?_eq_some hy) hx hkey]

/-- In a list with different keys the last element of a key is the only one. -/
theorem find?_reverse_key_of_nodup [DecidableEq κ] {key : α → κ} {xs : List α}
    (h : (xs.map key).Nodup) {x : α} (hx : x ∈ xs) :
    (xs.reverse.find? fun y => key y = key x) = some x := by
  refine find?_key_of_nodup ?_ (List.mem_reverse.2 hx)
  rw [List.map_reverse]
  exact List.nodup_reverse.2 h

/-- When the lists of all elements together have no element twice, one of theirs tells whose it is. -/
theorem eq_of_mem_of_nodup_flatMap {β : Type w} {f : α → List β} {xs : List α}
    (h : (xs.flatMap f).Nodup) {x y : α} (hx : x ∈ xs) (hy : y ∈ xs) {b : β} (hbx : b ∈ f x)
    (hby : b ∈ f y) : x = y := by
  have hsymm : Std.Symm (Function.onFun List.Disjoint f) :=
    ⟨fun _ _ hdisjoint _ hmem hmem' => hdisjoint hmem' hmem⟩
  by_contra hne
  exact (List.nodup_flatMap.1 h).2.forall hx hy hne hbx hby

namespace Assoc

variable [DecidableEq κ]

theorem get?_eq_none_iff {key : κ} {pairs : List (κ × α)} :
    get? key pairs = none ↔ key ∉ keys pairs := by
  induction pairs with
  | nil => simp [get?, keys]
  | cons head rest ih =>
    by_cases h : head.1 = key
    · simp [get?, keys, h]
    · simp only [get?, if_neg h, ih, keys, List.map_cons, List.mem_cons, not_or]
      exact ⟨fun hrest => ⟨Ne.symm h, hrest⟩, fun hrest => hrest.2⟩

theorem get?_eq_some_iff {key : κ} {value : α} {pairs : List (κ × α)} (h : (keys pairs).Nodup) :
    get? key pairs = some value ↔ (key, value) ∈ pairs := by
  induction pairs with
  | nil => simp [get?]
  | cons head rest ih =>
    obtain ⟨k, a⟩ := head
    obtain ⟨hk, hrest⟩ := List.nodup_cons.1 h
    by_cases he : k = key
    · subst he
      have hne : (k, value) ∉ rest := fun hmem => hk (List.mem_map.2 ⟨_, hmem, rfl⟩)
      simp [get?, hne, eq_comm]
    · simp [get?, he, Ne.symm he, ih hrest]

theorem get?_append {key : κ} {pairs more : List (κ × α)} :
    get? key (pairs ++ more) = (get? key pairs).or (get? key more) := by
  induction pairs with
  | nil => rfl
  | cons head rest ih =>
    simp only [List.cons_append, get?]
    split
    · rfl
    · exact ih

theorem put_of_notMem {key : κ} {value : α} {pairs : List (κ × α)} (h : key ∉ keys pairs) :
    put key value pairs = pairs ++ [(key, value)] := by
  induction pairs with
  | nil => rfl
  | cons head rest ih =>
    simp only [keys, List.map_cons, List.mem_cons, not_or] at h
    rw [put, if_neg (Ne.symm h.1), ih h.2, List.cons_append]

theorem keys_put_of_mem {key : κ} {value : α} {pairs : List (κ × α)} (h : key ∈ keys pairs) :
    keys (put key value pairs) = keys pairs := by
  induction pairs with
  | nil => simp [keys] at h
  | cons head rest ih =>
    by_cases he : head.1 = key
    · simp [put, keys, he]
    · have hrest : key ∈ keys rest := by
        rcases List.mem_cons.1 h with h | h
        · exact absurd h.symm he
        · exact h
      rw [put, if_neg he]
      exact congrArg (head.1 :: ·) (ih hrest)

theorem get?_erase {key k : κ} {pairs : List (κ × α)} :
    get? k (erase key pairs) = if key = k then none else get? k pairs := by
  induction pairs with
  | nil => simp [erase, get?]
  | cons head rest ih =>
    rw [erase] at ih
    by_cases h : head.1 = key <;> by_cases hk : key = k <;>
      simp_all [erase, get?]

end Assoc

namespace OrderedMap

theorem ext_entries {m n : OrderedMap κ α} (h : m.entries = n.entries) : m = n := by
  cases m
  cases n
  cases h
  rfl

@[simp] theorem entries_empty : (∅ : OrderedMap κ α).entries = [] := rfl

@[simp] theorem keys_empty : (∅ : OrderedMap κ α).keys = [] := rfl

@[simp] theorem values_empty : (∅ : OrderedMap κ α).values = [] := rfl

section Views

variable {β : Type w}

theorem keys_mapWithKey {f : κ → α → β} {m : OrderedMap κ α} : (m.mapWithKey f).keys = m.keys := by
  simp [keys, Assoc.keys, mapWithKey, Function.comp_def]

theorem map_eq_mapWithKey {f : α → β} {m : OrderedMap κ α} :
    m.map f = m.mapWithKey fun _ value => f value := rfl

theorem keys_map {f : α → β} {m : OrderedMap κ α} : (m.map f).keys = m.keys := by
  rw [map_eq_mapWithKey, keys_mapWithKey]

theorem values_map {f : α → β} {m : OrderedMap κ α} : (m.map f).values = m.values.map f := by
  simp [values, map, Function.comp_def]

end Views

variable [DecidableEq κ]

@[simp] theorem get?_empty (key : κ) : (∅ : OrderedMap κ α).get? key = none := rfl

theorem get?_eq_some_iff {m : OrderedMap κ α} {key : κ} {value : α} :
    m.get? key = some value ↔ (key, value) ∈ m.entries :=
  Assoc.get?_eq_some_iff m.nodup

theorem get?_eq_none_iff {m : OrderedMap κ α} {key : κ} : m.get? key = none ↔ key ∉ m.keys :=
  Assoc.get?_eq_none_iff

theorem contains_iff {m : OrderedMap κ α} {key : κ} : m.contains key = true ↔ key ∈ m.keys := by
  rw [contains, Option.isSome_iff_ne_none, ne_eq, get?_eq_none_iff, not_not]

theorem mem_keys_of_get? {m : OrderedMap κ α} {key : κ} {value : α} (h : m.get? key = some value) :
    key ∈ m.keys :=
  Assoc.mem_keys_of_get? h

theorem mem_keys_iff {m : OrderedMap κ α} {key : κ} :
    key ∈ m.keys ↔ ∃ value, m.get? key = some value := by
  rw [← Option.ne_none_iff_exists', ne_eq, get?_eq_none_iff, not_not]

theorem mem_values_iff {m : OrderedMap κ α} {value : α} :
    value ∈ m.values ↔ ∃ key, m.get? key = some value := by
  simp only [values, List.mem_map, Prod.exists, exists_eq_right, get?_eq_some_iff]

theorem mem_map_values_iff {β : Type w} {m : OrderedMap κ α} {f : α → β} {image : β} :
    image ∈ m.values.map f ↔ ∃ key, (m.get? key).map f = some image := by
  simp only [List.mem_map, mem_values_iff, Option.map_eq_some_iff]
  constructor
  · rintro ⟨value, ⟨key, hget⟩, rfl⟩
    exact ⟨key, value, hget, rfl⟩
  · rintro ⟨key, value, hget, rfl⟩
    exact ⟨value, ⟨key, hget⟩, rfl⟩

/-- Keys in order and look-ups determine a map. -/
theorem eq_of_keys_of_get? {m n : OrderedMap κ α} (hkeys : m.keys = n.keys)
    (hget : ∀ key ∈ m.keys, m.get? key = n.get? key) : m = n := by
  obtain ⟨ms, hm⟩ := m
  obtain ⟨ns, hn⟩ := n
  refine ext_entries ?_
  simp only [keys, get?] at hkeys hget ⊢
  induction ms generalizing ns with
  | nil =>
    cases ns with
    | nil => rfl
    | cons _ _ => cases hkeys
  | cons head rest ih =>
    cases ns with
    | nil => cases hkeys
    | cons head' rest' =>
      obtain ⟨k, a⟩ := head
      obtain ⟨k', a'⟩ := head'
      obtain ⟨hk, hrest⟩ := List.cons.inj hkeys
      cases hk
      obtain ⟨hnot, hnodup⟩ := List.nodup_cons.1 hm
      have ha : a = a' := by
        have := hget k (by simp [Assoc.keys])
        simpa [Assoc.get?] using this
      refine List.cons_eq_cons.2 ⟨by rw [ha], ih hnodup rest' (List.nodup_cons.1 hn).2 hrest ?_⟩
      intro key hmem
      have hne : k ≠ key := fun h => hnot (h ▸ hmem)
      have := hget key (List.mem_cons_of_mem _ hmem)
      simpa [Assoc.get?, hne] using this

/-! ### Inserting -/

theorem get?_insert_self {m : OrderedMap κ α} {key : κ} {value : α} :
    (m.insert key value).get? key = some value := by
  rw [get?_insert, if_pos rfl]

theorem get?_insert_of_ne {m : OrderedMap κ α} {key k : κ} {value : α} (h : key ≠ k) :
    (m.insert key value).get? k = m.get? k := by
  rw [get?_insert, if_neg h]

theorem mem_values_insert {m : OrderedMap κ α} {key : κ} {value other : α}
    (h : other ∈ (m.insert key value).values) : other = value ∨ other ∈ m.values := by
  obtain ⟨k, hget⟩ := mem_values_iff.1 h
  rw [get?_insert] at hget
  split at hget
  · exact .inl (Option.some.inj hget).symm
  · exact .inr (mem_values_iff.2 ⟨k, hget⟩)

theorem isEmpty_insert {m : OrderedMap κ α} {key : κ} {value : α} :
    (m.insert key value).isEmpty = false := by
  cases h : (m.insert key value).isEmpty with
  | false => rfl
  | true =>
    have hget : (m.insert key value).get? key = some value := get?_insert_self
    rw [get?, List.isEmpty_iff.1 h] at hget
    cases hget

theorem entries_insert_of_notMem {m : OrderedMap κ α} {key : κ} {value : α} (h : key ∉ m.keys) :
    (m.insert key value).entries = m.entries ++ [(key, value)] :=
  Assoc.put_of_notMem h

theorem keys_insert_of_notMem {m : OrderedMap κ α} {key : κ} {value : α} (h : key ∉ m.keys) :
    (m.insert key value).keys = m.keys ++ [key] := by
  simp only [keys, Assoc.keys, entries_insert_of_notMem h, List.map_append, List.map_cons,
    List.map_nil]

theorem keys_insert_of_mem {m : OrderedMap κ α} {key : κ} {value : α} (h : key ∈ m.keys) :
    (m.insert key value).keys = m.keys :=
  Assoc.keys_put_of_mem h

/-- The keys after inserting a value depend on keys only. -/
theorem keys_insert_congr {β : Type w} {m : OrderedMap κ α} {n : OrderedMap κ β}
    (h : m.keys = n.keys) {key : κ} {value : α} {other : β} :
    (m.insert key value).keys = (n.insert key other).keys := by
  by_cases hmem : key ∈ m.keys
  · rw [keys_insert_of_mem hmem, keys_insert_of_mem (h ▸ hmem), h]
  · rw [keys_insert_of_notMem hmem, keys_insert_of_notMem (h ▸ hmem), h]

/-- Maps with the same keys are listed alike when what stands under one key is. -/
theorem map_toList_congr {β : Type w} {γ : Type*} {m : OrderedMap κ α} {n : OrderedMap κ β}
    (hkeys : m.keys = n.keys) {f : κ × α → γ} {g : κ × β → γ}
    (h : ∀ key value other, m.get? key = some value → n.get? key = some other →
      f (key, value) = g (key, other)) : m.toList.map f = n.toList.map g := by
  refine List.ext_getElem ?_ fun index hindex hindex' => ?_
  · simpa [keys, Assoc.keys, toList] using congrArg List.length hkeys
  · rw [List.length_map] at hindex hindex'
    rw [List.getElem_map, List.getElem_map]
    have hkey : m.toList[index].1 = n.toList[index].1 := by
      have hget := congrArg (fun names => names[index]?) hkeys
      simp only [keys, Assoc.keys, List.getElem?_map] at hget
      rw [show m.entries[index]? = some m.toList[index] from List.getElem?_eq_getElem hindex,
        show n.entries[index]? = some n.toList[index] from List.getElem?_eq_getElem hindex'] at hget
      exact Option.some.inj hget
    have hvalue : m.get? m.toList[index].1 = some m.toList[index].2 :=
      get?_eq_some_iff.2 (List.getElem_mem hindex)
    have hother : n.get? m.toList[index].1 = some n.toList[index].2 := by
      rw [hkey]
      exact get?_eq_some_iff.2 (List.getElem_mem hindex')
    refine (h _ _ _ hvalue hother).trans ?_
    rw [hkey]

/-- Writing what is there already changes nothing. -/
theorem insert_of_get? {m : OrderedMap κ α} {key : κ} {value : α} (h : m.get? key = some value) :
    m.insert key value = m := by
  refine eq_of_keys_of_get? (keys_insert_of_mem (mem_keys_of_get? h)) fun k _ => ?_
  rw [get?_insert]
  split
  · next heq => rw [← heq, h]
  · rfl

theorem get?_insertIfNew {m : OrderedMap κ α} {key k : κ} {value : α} :
    (m.insertIfNew key value).get? k = (m.get? k).or (if key = k then some value else none) := by
  rw [insertIfNew]
  split
  · next h =>
    obtain ⟨old, hold⟩ := mem_keys_iff.1 (contains_iff.1 h)
    by_cases hk : key = k
    · rw [← hk, hold, Option.some_or]
    · rw [if_neg hk, Option.or_none]
  · next h =>
    rw [get?_insert]
    by_cases hk : key = k
    · have hnone : m.get? k = none := by
        rw [get?_eq_none_iff, ← hk]
        exact fun hmem => h (contains_iff.2 hmem)
      rw [if_pos hk, if_pos hk, hnone, Option.none_or]
    · rw [if_neg hk, if_neg hk, Option.or_none]

theorem get?_erase {m : OrderedMap κ α} {key k : κ} :
    (m.erase key).get? k = if key = k then none else m.get? k :=
  Assoc.get?_erase

/-! ### Changing values -/

section Map

variable {β : Type w}

theorem get?_mapWithKey {f : κ → α → β} {m : OrderedMap κ α} {key : κ} :
    (m.mapWithKey f).get? key = (m.get? key).map (f key) := by
  obtain ⟨entries, hnodup⟩ := m
  simp only [get?, mapWithKey]
  clear hnodup
  induction entries with
  | nil => rfl
  | cons head rest ih =>
    by_cases h : head.1 = key
    · simp [Assoc.get?, h]
    · simp [Assoc.get?, h, ih]

theorem get?_map {f : α → β} {m : OrderedMap κ α} {key : κ} :
    (m.map f).get? key = (m.get? key).map f := by
  rw [map_eq_mapWithKey, get?_mapWithKey]

theorem mapWithKey_insert {f : κ → α → β} {m : OrderedMap κ α} {key : κ} {value : α} :
    (m.insert key value).mapWithKey f = (m.mapWithKey f).insert key (f key value) := by
  have hkeys : (m.mapWithKey f).keys = m.keys := keys_mapWithKey
  refine eq_of_keys_of_get? ?_ fun k _ => ?_
  · by_cases h : key ∈ m.keys
    · rw [keys_mapWithKey, keys_insert_of_mem h, keys_insert_of_mem (by rwa [hkeys]), hkeys]
    · rw [keys_mapWithKey, keys_insert_of_notMem h, keys_insert_of_notMem (by rwa [hkeys]), hkeys]
  · rw [get?_mapWithKey, get?_insert, get?_insert, get?_mapWithKey]
    by_cases h : key = k
    · rw [if_pos h, if_pos h, h, Option.map_some]
    · rw [if_neg h, if_neg h]

theorem map_insert {f : α → β} {m : OrderedMap κ α} {key : κ} {value : α} :
    (m.insert key value).map f = (m.map f).insert key (f value) := by
  rw [map_eq_mapWithKey, mapWithKey_insert]
  rfl

theorem mapWithKey_erase {f : κ → α → β} {m : OrderedMap κ α} {key : κ} :
    (m.erase key).mapWithKey f = (m.mapWithKey f).erase key := by
  refine ext_entries ?_
  simp only [erase, Assoc.erase, mapWithKey, List.filter_map, Function.comp_def]

theorem map_erase {f : α → β} {m : OrderedMap κ α} {key : κ} :
    (m.erase key).map f = (m.map f).erase key := by
  rw [map_eq_mapWithKey, mapWithKey_erase]
  rfl

end Map

/-! ### Filling a map from a list -/

theorem insertMany_append {m : OrderedMap κ α} {xs ys : List (κ × α)} :
    m.insertMany (xs ++ ys) = (m.insertMany xs).insertMany ys :=
  List.foldl_append

theorem insertMany_cons {m : OrderedMap κ α} {x : κ × α} {xs : List (κ × α)} :
    m.insertMany (x :: xs) = (m.insert x.1 x.2).insertMany xs := rfl

/-- Inserting the entries of another map overwrites with its values. -/
theorem get?_insertMany_toList {m other : OrderedMap κ α} {key : κ} :
    (m.insertMany other.toList).get? key = (other.get? key).or (m.get? key) := by
  obtain ⟨entries, hnodup⟩ := other
  simp only [toList, get?]
  induction entries generalizing m with
  | nil => rfl
  | cons head rest ih =>
    obtain ⟨hnot, hrest⟩ := List.nodup_cons.1 hnodup
    change ((m.insert head.1 head.2).insertMany rest).get? key = _
    refine (ih hrest).trans ?_
    change (Assoc.get? key rest).or ((m.insert head.1 head.2).get? key) = _
    rw [get?_insert, Assoc.get?]
    by_cases h : head.1 = key
    · rw [if_pos h, if_pos h, Assoc.get?_eq_none_iff.2 (h ▸ hnot), Option.none_or, Option.some_or]
    · rw [if_neg h, if_neg h]
      rfl

/-- What is found after inserting pairs is one of them or was found before. -/
theorem mem_of_get?_insertMany {m : OrderedMap κ α} {xs : List (κ × α)} {key : κ} {value : α}
    (h : (m.insertMany xs).get? key = some value) :
    (key, value) ∈ xs ∨ m.get? key = some value := by
  induction xs generalizing m with
  | nil => exact .inr h
  | cons x xs ih =>
    rw [insertMany_cons] at h
    rcases ih h with hrest | hfirst
    · exact .inl (List.mem_cons_of_mem _ hrest)
    · rw [get?_insert] at hfirst
      split at hfirst
      · next heq =>
        cases hfirst
        exact .inl (heq ▸ List.mem_cons_self ..)
      · exact .inr hfirst

/-- The keys after inserting pairs depend on keys only. -/
theorem keys_insertMany_congr {m n : OrderedMap κ α} {xs ys : List (κ × α)}
    (hm : m.keys = n.keys) (hxs : xs.map Prod.fst = ys.map Prod.fst) :
    (m.insertMany xs).keys = (n.insertMany ys).keys := by
  induction xs generalizing m n ys with
  | nil =>
    obtain rfl := List.map_eq_nil_iff.1 hxs.symm
    exact hm
  | cons x xs ih =>
    obtain ⟨y, ys, rfl, hxy, hrest⟩ := List.map_eq_cons_iff.1 hxs.symm
    rw [insertMany_cons, insertMany_cons]
    rw [hxy]
    exact ih (keys_insert_congr hm) hrest.symm

theorem ofList_append_singleton {xs : List (κ × α)} {x : κ × α} :
    ofList (xs ++ [x]) = (ofList xs).insert x.1 x.2 := by
  rw [ofList, insertMany_append]
  rfl

theorem mem_keys_insertMany {m : OrderedMap κ α} {xs : List (κ × α)} {key : κ} :
    key ∈ (m.insertMany xs).keys ↔ key ∈ m.keys ∨ key ∈ xs.map Prod.fst := by
  induction xs generalizing m with
  | nil => simp [insertMany]
  | cons x xs ih =>
    rw [insertMany_cons, ih, mem_keys_insert, List.map_cons, List.mem_cons, or_assoc, or_left_comm]

theorem mem_keys_ofList {xs : List (κ × α)} {key : κ} :
    key ∈ (ofList xs).keys ↔ key ∈ xs.map Prod.fst := by
  rw [ofList, mem_keys_insertMany]
  simp [empty, keys, Assoc.keys]

theorem isEmpty_ofList_iff {xs : List (κ × α)} : (ofList xs).isEmpty = true ↔ xs = [] := by
  constructor
  · intro h
    have hkeys : (ofList xs).keys = [] := by rw [keys, List.isEmpty_iff.1 h]; rfl
    rw [← List.map_eq_nil_iff, List.eq_nil_iff_forall_not_mem]
    exact fun key hmem => List.not_mem_nil (hkeys ▸ mem_keys_ofList.2 hmem)
  · rintro rfl
    rfl

/-- The keys of a map filled from a list stand where they came first. -/
theorem keys_ofList {xs : List (κ × α)} : (ofList xs).keys = (xs.map Prod.fst).eraseDups := by
  induction xs using List.reverseRecOn with
  | nil => rfl
  | append_singleton xs x ih =>
    rw [ofList_append_singleton, List.map_append, List.map_singleton, eraseDups_append_singleton,
      ← ih]
    by_cases h : x.1 ∈ (ofList xs).keys
    · rw [keys_insert_of_mem h, if_pos (mem_keys_ofList.1 h)]
    · rw [keys_insert_of_notMem h, if_neg fun hx => h (mem_keys_ofList.2 hx)]

/-- A key of a map filled from a list has the value that came last. -/
theorem get?_ofList {xs : List (κ × α)} {key : κ} :
    (ofList xs).get? key = ((xs.filter fun x => x.1 = key).getLast?).map Prod.snd := by
  induction xs using List.reverseRecOn with
  | nil => rfl
  | append_singleton xs x ih =>
    rw [ofList_append_singleton, get?_insert, ih, List.filter_append]
    by_cases h : x.1 = key <;> simp [h]

/-- What is found in the map of a list is in the list. -/
theorem mem_of_get?_ofList {xs : List (κ × α)} {key : κ} {value : α}
    (h : (ofList xs).get? key = some value) : (key, value) ∈ xs :=
  (mem_of_get?_insertMany h).resolve_right fun h => by cases h

/-- A map filled from a list without repeated keys has just the entries of the list. -/
theorem entries_ofList {xs : List (κ × α)} (h : (xs.map Prod.fst).Nodup) :
    (ofList xs).entries = xs := by
  induction xs using List.reverseRecOn with
  | nil => rfl
  | append_singleton xs x ih =>
    rw [List.map_append] at h
    obtain ⟨hinit, -, hnew⟩ := List.nodup_append.1 h
    rw [ofList_append_singleton, entries_insert_of_notMem, ih hinit]
    rw [mem_keys_ofList]
    exact fun hmem => hnew x.1 hmem x.1 (List.mem_singleton_self _) rfl

/-- A map filled from a list has the last value of a key. -/
theorem get?_ofList_map {β : Type w} {key : β → κ} {value : β → α} {xs : List β} {k : κ} :
    (ofList (xs.map fun x => (key x, value x))).get? k =
      (xs.reverse.find? fun x => key x = k).map value := by
  induction xs using List.reverseRecOn with
  | nil => rfl
  | append_singleton xs x ih =>
    rw [List.map_append, List.map_singleton, ofList_append_singleton, get?_insert,
      List.reverse_append, List.reverse_singleton, List.singleton_append, List.find?_cons]
    by_cases h : key x = k
    · simp [h]
    · simp [h, ih]

theorem get?_ofList_eq_some_iff {xs : List (κ × α)} (h : (xs.map Prod.fst).Nodup) {key : κ}
    {value : α} : (ofList xs).get? key = some value ↔ (key, value) ∈ xs := by
  rw [get?_eq_some_iff, entries_ofList h]

/-- Values that stand under their names are named as the keys. -/
theorem map_values_eq_keys {m : OrderedMap κ α} {name : α → κ}
    (h : ∀ key value, m.get? key = some value → name value = key) : m.values.map name = m.keys := by
  rw [values, keys, Assoc.keys, List.map_map]
  exact List.map_congr_left fun entry hentry =>
    h entry.1 entry.2 (get?_eq_some_iff.2 hentry)

/-- A map filled from the values of another one that stand under their names. -/
theorem ofList_map_values {β : Type w} {m : OrderedMap κ α} {name : α → κ} {f : α → β}
    (h : ∀ key value, m.get? key = some value → name value = key) :
    ofList (m.values.map fun value => (name value, f value)) = m.map f := by
  have hentries : (m.values.map fun value => (name value, f value)) = (m.map f).entries := by
    rw [values, List.map_map]
    refine List.map_congr_left fun entry hentry => ?_
    exact Prod.ext (h entry.1 entry.2 (get?_eq_some_iff.2 hentry)) rfl
  rw [hentries]
  exact ext_entries (entries_ofList (m.map f).nodup)

/-! ### Two maps side by side -/

/-- The entries of a second map go after those of a first one; a key of both keeps its place and has
the value of the second. -/
instance : Append (OrderedMap κ α) := ⟨fun m n => m.insertMany n.toList⟩

section Append

variable {m n : OrderedMap κ α} {key k : κ} {value : α}

theorem get?_append : (m ++ n).get? k = (n.get? k).or (m.get? k) :=
  get?_insertMany_toList

theorem get?_append_of_notMem (h : k ∉ m.keys) : (m ++ n).get? k = n.get? k := by
  rw [get?_append, get?_eq_none_iff.2 h, Option.or_none]

theorem mem_keys_append : k ∈ (m ++ n).keys ↔ k ∈ m.keys ∨ k ∈ n.keys :=
  mem_keys_insertMany

theorem append_empty : m ++ (∅ : OrderedMap κ α) = m := rfl

theorem map_append {f : α → β} : (m ++ n).map f = m.map f ++ n.map f := by
  have hmany : ∀ xs : List (κ × α), (m.insertMany xs).map f =
      (m.map f).insertMany (xs.map fun x => (x.1, f x.2)) := by
    intro xs
    induction xs generalizing m with
    | nil => rfl
    | cons x rest ih => rw [insertMany_cons, ih, map_insert, List.map_cons, insertMany_cons]
  exact hmany n.toList

/-- Inserting into the second of two maps. -/
theorem append_insert : m ++ n.insert key value = (m ++ n).insert key value := by
  by_cases h : key ∈ n.keys
  · refine eq_of_keys_of_get? ?_ fun k _ => ?_
    · rw [keys_insert_of_mem (mem_keys_append.2 (.inr h))]
      exact keys_insertMany_congr rfl (keys_insert_of_mem h)
    · rw [get?_append, get?_insert, get?_insert, get?_append]
      split <;> rfl
  · change m.insertMany (n.insert key value).entries = _
    rw [entries_insert_of_notMem h, insertMany_append]
    rfl

theorem append_singleton : m ++ (∅ : OrderedMap κ α).insert key value = m.insert key value :=
  append_insert (n := ∅)

/-- Changing a value of the first of two maps. -/
theorem insert_append (h : key ∈ m.keys) (hn : key ∉ n.keys) :
    m.insert key value ++ n = (m ++ n).insert key value := by
  refine eq_of_keys_of_get? ?_ fun k _ => ?_
  · rw [keys_insert_of_mem (mem_keys_append.2 (.inl h))]
    exact keys_insertMany_congr (keys_insert_of_mem h) rfl
  · rw [get?_append, get?_insert, get?_insert, get?_append]
    by_cases hk : key = k
    · rw [if_pos hk, if_pos hk, ← hk, get?_eq_none_iff.2 hn, Option.none_or]
    · rw [if_neg hk, if_neg hk]

theorem append_insertMany {xs : List (κ × α)} : m ++ n.insertMany xs = (m ++ n).insertMany xs := by
  induction xs generalizing n with
  | nil => rfl
  | cons x xs ih => rw [insertMany_cons, insertMany_cons, ih, append_insert]

theorem append_insertIfNew (h : key ∉ m.keys) :
    m ++ n.insertIfNew key value = (m ++ n).insertIfNew key value := by
  have hcontains : (m ++ n).contains key = n.contains key := by
    rw [contains, get?_append_of_notMem h, contains]
  rw [insertIfNew, insertIfNew, hcontains]
  split
  · rfl
  · exact append_insert

end Append

/-- Erasing a key that was just added takes it back. -/
theorem erase_insert_of_notMem {m : OrderedMap κ α} {key : κ} {value : α} (h : key ∉ m.keys) :
    (m.insert key value).erase key = m := by
  refine ext_entries ?_
  have hkeep : ∀ entry ∈ m.entries, entry.1 ≠ key :=
    fun entry hmem heq => h (List.mem_map.2 ⟨entry, hmem, heq⟩)
  simp only [erase, Assoc.erase, entries_insert_of_notMem h, List.filter_append]
  rw [List.filter_eq_self.2 (by simpa using hkeep)]
  simp

end OrderedMap

end ModelGraph
