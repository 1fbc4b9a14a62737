import ModelGraph.Proofs.Cache.Traits
import ModelGraph.Proofs.Graph.Faithful
import ModelGraph.Schema.FieldValue
import ModelGraph.Query.EnumSources

/-!
# Enum items and the stored values behind them

An enum is made of stored values, each of which is rewritten to an item. Different values can share
an item, and a value can be listed twice. An item then stands for the first value that has it. So the
way from an item to its value and back always leads to the same item, but the way from a value to its
item and back leads to the same value only when no other value with this item comes before it.

## Main definitions

- `EnumType.ofValues` — the enum of stored values
- `EnumType.Translates` — what an enum makes of its stored values

## Main statements

- `EnumType.translates_ofValues` — an enum translates the values that it is made of
- `Arena.translates_of_scalarType` — so does an enum that is laid out for a field
- `Run.restores_items_of_synthesizeCached` — in the graphs that callers get, a value is shown as its
  item, and a filter for this item looks for a value with the same item
-/

namespace ModelGraph

open Naming (sanitize)

/-! ### Where elements come first -/

section First

variable {α : Type} [DecidableEq α]

/-- Without repetitions, elements stand in the order in which they come first. -/
theorem pairwise_idxOf_eraseDups (xs : List α) :
    xs.eraseDups.Pairwise fun x y => xs.idxOf x < xs.idxOf y := by
  induction xs using List.reverseRecOn with
  | nil => exact List.Pairwise.nil
  | append_singleton xs last ih =>
    -- What is there already keeps its place, and a new last element comes after all of it.
    have hinit : xs.eraseDups.Pairwise fun x y =>
        (xs ++ [last]).idxOf x < (xs ++ [last]).idxOf y := by
      refine ih.imp_of_mem fun hx hy hlt => ?_
      rwa [List.idxOf_append_of_mem (List.mem_eraseDups.1 hx),
        List.idxOf_append_of_mem (List.mem_eraseDups.1 hy)]
    rw [eraseDups_append_singleton]
    split
    · exact hinit
    · next hnew =>
      refine List.pairwise_append.2 ⟨hinit, List.pairwise_singleton _ _, fun x hx y hy => ?_⟩
      have hx := List.mem_eraseDups.1 hx
      rw [List.mem_singleton.1 hy, List.idxOf_append_of_mem hx, List.idxOf_append_of_notMem hnew]
      exact Nat.lt_add_right _ (List.idxOf_lt_length_of_mem hx)

/-- What comes before the element that a search finds does not pass the test. -/
theorem not_of_find?_eq_some {P : α → Prop} [DecidablePred P] {xs : List α} {found : α}
    (h : (xs.find? fun y => P y) = some found) {y : α} (hlt : xs.idxOf y < xs.idxOf found) :
    ¬ P y := by
  obtain ⟨hfound, before, after, rfl, hbefore⟩ := List.find?_eq_some_iff_append.1 h
  have hfails : ∀ z ∈ before, ¬ P z := fun z hz => by simpa using hbefore z hz
  have hnew : found ∉ before := fun hmem => hfails found hmem (of_decide_eq_true hfound)
  by_contra hpasses
  -- All that comes earlier fails, so an element that passes is no earlier than the found one.
  have hlater : y ∉ before := fun hy => hfails y hy hpasses
  rw [List.idxOf_append_of_notMem hnew, List.idxOf_append_of_notMem hlater,
    List.idxOf_cons_self] at hlt
  omega

/-- A search finds a listed element that passes the test when none does that comes before it. -/
theorem find?_eq_some_iff_idxOf {P : α → Prop} [DecidablePred P] {xs : List α} {x : α}
    (hmem : x ∈ xs) (hx : P x) :
    (xs.find? fun y => P y) = some x ↔ ∀ y ∈ xs, xs.idxOf y < xs.idxOf x → ¬ P y := by
  refine ⟨fun h y _ => not_of_find?_eq_some h, fun h => ?_⟩
  obtain ⟨found, hfound⟩ : ∃ found, (xs.find? fun y => P y) = some found :=
    Option.isSome_iff_exists.1 (List.find?_isSome.2 ⟨x, hmem, decide_eq_true hx⟩)
  have hpasses : P found := by simpa using List.find?_some hfound
  -- Both elements pass, so neither comes before the other.
  have hle : xs.idxOf x ≤ xs.idxOf found :=
    Nat.not_lt.1 fun hlt => h found (List.mem_of_find?_eq_some hfound) hlt hpasses
  have hge : xs.idxOf found ≤ xs.idxOf x :=
    Nat.not_lt.1 fun hlt => not_of_find?_eq_some hfound hlt hx
  rw [hfound, (List.idxOf_inj hmem).1 (Nat.le_antisymm hle hge)]

end First

/-! ### The enum of stored values -/

namespace EnumType

/-- The enum of stored values: the item of each is the value rewritten. -/
def ofValues (name : String) (values : List String) : EnumType :=
  ⟨name, values.map fun value => ⟨sanitize value, value⟩⟩

/-- An enum that is made of stored values, of which there is one at least. -/
def IsOfValues (type : EnumType) : Prop :=
  ∃ values, values ≠ [] ∧ type = ofValues type.name values

/-- What an enum makes of stored values. A value that is listed again keeps the place where it comes
first. -/
structure Translates (type : EnumType) (values : List String) : Prop where
  /-- The items are the rewritten values, -/
  mem_itemNames : ∀ item, item ∈ type.itemNames ↔ item ∈ values.map sanitize
  /-- each once, -/
  nodup : type.itemNames.Nodup
  /-- in the order in which they come first. -/
  ordered : type.itemNames.Pairwise fun item other =>
    (values.map sanitize).idxOf item < (values.map sanitize).idxOf other
  /-- A listed value has an item, and no other text has one. -/
  itemFor? : ∀ text, type.itemFor? text = if text ∈ values then some (sanitize text) else none
  /-- An item stands for a value, and no other text does. -/
  isSome_sourceOf? : ∀ text, (type.sourceOf? text).isSome = true ↔ text ∈ type.itemNames
  /-- The value of an item has this item. -/
  itemFor?_sourceOf? : ∀ item ∈ type.itemNames,
    (type.sourceOf? item).bind type.itemFor? = some item
  /-- The item of a value stands for this value unless it is the item of another one that comes
  first. -/
  sourceOf?_itemFor? : ∀ value ∈ values,
    ((type.itemFor? value).bind type.sourceOf? = some value ↔
      ∀ other ∈ values, values.idxOf other < values.idxOf value → sanitize other ≠ sanitize value)

variable {name : String} {values : List String}

theorem itemNames_ofValues : (ofValues name values).itemNames = (values.map sanitize).eraseDups := by
  rw [itemNames, ofValues, List.map_map]
  rfl

theorem sourceOf?_ofValues (item : String) : (ofValues name values).sourceOf? item =
    values.find? fun value => sanitize value = item := by
  rw [sourceOf?, ofValues, List.find?_map, Option.map_map]
  exact Option.map_id' ..

theorem itemFor?_ofValues (value : String) : (ofValues name values).itemFor? value =
    if value ∈ values then some (sanitize value) else none := by
  have hfind : (ofValues name values).itemFor? value =
      (values.find? fun other => other = value).map sanitize := by
    rw [itemFor?, ofValues, List.find?_map, Option.map_map]
    rfl
  rw [hfind]
  split
  · next hmem =>
    have hfound : (values.find? fun other => other = value) = some value :=
      (find?_eq_some_iff_idxOf (P := fun other => other = value) hmem rfl).2
        fun other _ hlt heq => Nat.lt_irrefl _ (heq ▸ hlt)
    rw [hfound, Option.map_some]
  · next hnone =>
    have hmissed : (values.find? fun other => other = value) = none :=
      List.find?_eq_none.2 fun other hother heq => hnone (of_decide_eq_true heq ▸ hother)
    rw [hmissed, Option.map_none]

/-- An enum translates the values that it is made of. -/
theorem translates_ofValues (name : String) (values : List String) :
    (ofValues name values).Translates values where
  mem_itemNames item := by rw [itemNames_ofValues, List.mem_eraseDups]
  nodup := by
    rw [itemNames_ofValues]
    refine (pairwise_idxOf_eraseDups _).imp ?_
    rintro item _ hlt rfl
    exact Nat.lt_irrefl _ hlt
  ordered := by
    rw [itemNames_ofValues]
    exact pairwise_idxOf_eraseDups _
  itemFor? := itemFor?_ofValues
  isSome_sourceOf? text := by
    rw [sourceOf?_ofValues, itemNames_ofValues, List.mem_eraseDups, List.find?_isSome]
    simp
  itemFor?_sourceOf? item hitem := by
    rw [itemNames_ofValues, List.mem_eraseDups] at hitem
    obtain ⟨value, hvalue, hsanitize⟩ := List.mem_map.1 hitem
    obtain ⟨source, hsource⟩ : ∃ source,
        (values.find? fun value => sanitize value = item) = some source :=
      Option.isSome_iff_exists.1 (List.find?_isSome.2 ⟨value, hvalue, decide_eq_true hsanitize⟩)
    have hsame : sanitize source = item := by simpa using List.find?_some hsource
    rw [sourceOf?_ofValues, hsource, Option.bind_some, itemFor?_ofValues,
      if_pos (List.mem_of_find?_eq_some hsource), hsame]
  sourceOf?_itemFor? value hvalue := by
    rw [itemFor?_ofValues, if_pos hvalue, Option.bind_some, sourceOf?_ofValues]
    exact find?_eq_some_iff_idxOf (P := fun other => sanitize other = sanitize value) hvalue rfl

/-- The item of a listed value stands for a listed value with the same item. -/
theorem Translates.exists_source {type : EnumType} (h : type.Translates values) {value : String}
    (hvalue : value ∈ values) : ∃ source ∈ values,
      type.sourceOf? (sanitize value) = some source ∧ sanitize source = sanitize value := by
  have hitem : sanitize value ∈ type.itemNames :=
    (h.mem_itemNames _).2 (List.mem_map_of_mem hvalue)
  obtain ⟨source, hsource⟩ := Option.isSome_iff_exists.1 ((h.isSome_sourceOf? _).2 hitem)
  have hback := h.itemFor?_sourceOf? _ hitem
  rw [hsource, Option.bind_some, h.itemFor?] at hback
  split at hback
  · next hlisted => exact ⟨source, hlisted, hsource, Option.some.inj hback⟩
  · cases hback

end EnumType

/-! ### Enums that are laid out -/

namespace Arena

/-- For a string field with stored values, an enum is laid out that translates them. -/
theorem translates_of_scalarType (parent field : String) {values : List String} (h : values ≠ [])
    (arena : Arena) :
    ∃ type : EnumType,
      ((scalarType parent field .string values).run arena).1 = .enum type.name ∧
      ((scalarType parent field .string values).run arena).2.enums.get? type.name = some type ∧
      type.Translates values := by
  have hvalues : (values.isEmpty || ScalarKind.string != .string) = false := by
    rw [List.isEmpty_eq_false_iff.2 h]
    rfl
  rw [run_scalarType, hvalues, if_neg Bool.false_ne_true]
  exact ⟨.ofValues (Naming.enumType parent field) values, rfl, OrderedMap.get?_insert_self,
    EnumType.translates_ofValues _ values⟩

/-- Values of which two share an item, and one of these is listed twice. -/
def workStates : List String := ["in-progress", "in_progress", "done", "in-progress"]

/-- The item that two values share stands for the first one. -/
theorem translates_workStates :
    workStates ≠ [] ∧ ∃ type : EnumType,
      ((scalarType "Post" "state" .string workStates).run {}).1 = .enum type.name ∧
      ((scalarType "Post" "state" .string workStates).run {}).2.enums.get? type.name = some type ∧
      type.Translates workStates ∧ type.itemNames = ["in_progress", "done"] ∧
      (type.itemFor? "in-progress").bind type.sourceOf? = some "in-progress" ∧
      (type.itemFor? "in_progress").bind type.sourceOf? = some "in-progress" ∧
      type.itemFor? "archived" = none := by
  have hvalues : workStates ≠ [] := by decide
  obtain ⟨type, hresult, hget, htranslates⟩ :=
    translates_of_scalarType "Post" "state" hvalues {}
  refine ⟨hvalues, type, hresult, hget, htranslates, ?_⟩
  have hname : type.name = "PostStateEnum" :=
    FieldType.enum.inj (hresult.symm.trans (by decide +kernel))
  rw [hname] at hget
  -- Under its name there is this enum, and the look-ups are computed on it.
  obtain rfl : type = ⟨"PostStateEnum", [⟨"in_progress", "in-progress"⟩,
      ⟨"in_progress", "in_progress"⟩, ⟨"done", "done"⟩, ⟨"in_progress", "in-progress"⟩]⟩ :=
    Option.some.inj (hget.symm.trans (by decide +kernel))
  decide

/-! ### Enums of a run -/

/-- Laying out fields makes enums of values only. -/
theorem inherited_ofValues : Inherited fun computation =>
    ∀ arena, arena.enums.All EnumType.IsOfValues →
      (computation.run arena).2.enums.All EnumType.IsOfValues where
  pure _ _ h := h
  bind hfirst hnext arena h := by
    rw [run_bind]
    exact hnext _ _ (hfirst arena h)
  scalarType parent field kind values arena h := by
    rw [run_scalarType]
    split
    · exact h
    · next hvalues =>
      refine h.insert ⟨values, fun hnil => hvalues ?_, rfl⟩
      rw [hnil]
      rfl
  addObject name embedded fields arena h := by
    rw [run_addObject]
    split
    · cases embedded <;> exact h
    · exact h
  addSlot _ _ h := h
  argumentsOf type arena h := by
    rw [run_argumentsOf]
    split <;> exact h
  meetEmbedded model arena h := by
    rw [run_meetEmbedded]
    split <;> exact h

end Arena

/-- A named type that is made of stored values if it is an enum. -/
def NamedType.IsOfValues : NamedType → Prop
  | .enum type => type.IsOfValues
  | .object _ | .input _ | .connection _ => True

namespace Run

theorem isOfValues_enums (run : Run) (models : List ModelDecl) :
    (run.layOut models).enums.All EnumType.IsOfValues := by
  refine run.layOut_induct models (P := fun _ arena => arena.enums.All EnumType.IsOfValues)
    OrderedMap.all_empty fun _ arena model _ h => ?_
  rw [Arena.run_addModel]
  exact Arena.inherited_ofValues.fields run.settings _ _ _ _ _ arena h

/-- Every run makes its enums of stored values, and a run asks nothing else of them. -/
theorem ofValues_traits : Traits (fun _ => True) NamedType.IsOfValues where
  roots _ _ _ _ _ := trivial
  types run models name type hget := by
    cases type with
    | enum type =>
      have henum := Arena.get?_enums_of_namedTypes hget
      rw [(Arena.settled_frame _).2.2.1] at henum
      exact run.isOfValues_enums models name type henum
    | object _ | input _ | connection _ => trivial
  mark _ _ _ := trivial

/-- Whatever callers did to caches that they share, every enum of the graph that a call gets
translates some stored values. Each of them is shown as its item in a response, and a filter for
this item looks for a stored value with the same item. -/
theorem restores_items_of_synthesizeCached {start : Caches} (hstart : start.Empty)
    (events : List Caches.Event) {run : Run} {now : Nat} {models : List ModelDecl}
    {graph : Shared TypeGraph}
    (h : (run.synthesizeCached now models (start.after events)).1 = .ok graph)
    {name : String} {type : EnumType} (htype : graph.value.enum? name = some type) :
    ∃ values, values ≠ [] ∧ type.Translates values ∧ ∀ value ∈ values,
      FieldValue.ofStored? graph.value (.enum name) (.string value) =
        some (.leaf (.string (sanitize value))) ∧
      ∃ source ∈ values, type.restore (.string (sanitize value)) = .string source ∧
        sanitize source = sanitize value := by
  have hget := TypeGraph.enum?_eq_some_iff.1 htype
  obtain ⟨shared, hshared, hvalue⟩ := Option.map_eq_some_iff.1 hget
  have hmade : NamedType.IsOfValues shared.value :=
    ((ofValues_traits.bear_of_synthesizeCached hstart events h).types name shared hshared).1
  rw [hvalue] at hmade
  obtain ⟨values, hvalues, hof⟩ := hmade
  have htranslates : type.Translates values := hof ▸ EnumType.translates_ofValues type.name values
  refine ⟨values, hvalues, htranslates, fun value hlisted => ⟨?_, ?_⟩⟩
  · rw [FieldValue.ofStored?, htype, Option.bind_some, htranslates.itemFor?, if_pos hlisted,
      Option.getD_some]
  · obtain ⟨source, hsource, hfirst, hsame⟩ := htranslates.exists_source hlisted
    exact ⟨source, hsource, by rw [EnumType.restore, hfirst, Option.getD_some], hsame⟩

end Run

end ModelGraph
