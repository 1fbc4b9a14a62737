import ModelGraph.Proofs.Graph.Settled

/-!
# Where slots end up

The paths of slots need not lead back to their places when declared names do not read back. But a
model has as many slots as places of slots, and resolving a slot fills one place at most. So when no
slot is left in the end, every slot has filled a place of its own, and no other field has changed.

## Main definitions

- `KeptField.slotPlaces` — the places of the slots of a field and below it
- `Arena.Under` — holders that are found from a root

## Main statements

- `Arena.settleAll_exact` — when no place of a slot is left open, each slot has filled one
- `KeptField.StandsAll.under` — the places of slots are found from the root
-/

namespace ModelGraph

namespace KeptField

/-! ### Places of slots -/

mutual

/-- The places of the slots of a field and below it. -/
def slotPlaces (holder : Holder) : KeptField → List FieldPlace
  | .value _ _ _ => []
  | .reference head _ _ => [⟨holder, Naming.sanitize head.source⟩]
  | .shape _ _ object _ fields => slotPlacesAll (.object object) fields

/-- The places of the slots of fields and below them. -/
def slotPlacesAll (holder : Holder) : List KeptField → List FieldPlace
  | [] => []
  | kept :: rest => slotPlaces holder kept ++ slotPlacesAll holder rest

end

mutual

theorem length_slotPlaces (holder : Holder) : (kept : KeptField) →
    (slotPlaces holder kept).length = (references kept).length
  | .value _ _ _ => by rw [slotPlaces, references]; rfl
  | .reference _ _ _ => by rw [slotPlaces, references]; rfl
  | .shape _ _ object _ fields => by
    rw [slotPlaces, references, List.length_map, length_slotPlacesAll (.object object) fields]

/-- There is a place for every slot. -/
theorem length_slotPlacesAll (holder : Holder) : (kept : List KeptField) →
    (slotPlacesAll holder kept).length = (referencesAll kept).length
  | [] => by rw [slotPlacesAll, referencesAll]; rfl
  | kept :: rest => by
    rw [slotPlacesAll, referencesAll, List.length_append, List.length_append,
      length_slotPlaces holder kept, length_slotPlacesAll holder rest]

end

mutual

theorem mem_slotPlaces {place : FieldPlace} (holder : Holder) : (kept : KeptField) →
    place ∈ slotPlaces holder kept → place = ⟨holder, name kept⟩ ∨
      ∃ object ∈ objectNames kept, place.holder = .object object
  | .value _ _ _, h => by
    rw [slotPlaces] at h
    cases h
  | .reference head _ _, h => by
    rw [slotPlaces] at h
    exact .inl (List.mem_singleton.1 h)
  | .shape head _ object _ fields, h => by
    rw [slotPlaces] at h
    rw [objectNames]
    rcases mem_slotPlacesAll (.object object) fields h with ⟨hholder, -⟩ | ⟨inner, hinner, hholder⟩
    · exact .inr ⟨object, List.mem_append_right _ (List.mem_singleton_self _), hholder⟩
    · exact .inr ⟨inner, List.mem_append_left _ hinner, hholder⟩

/-- A slot is a field of the holder, or of a type that the fields add. -/
theorem mem_slotPlacesAll {place : FieldPlace} (holder : Holder) : (kept : List KeptField) →
    place ∈ slotPlacesAll holder kept →
      (place.holder = holder ∧ place.name ∈ kept.map name) ∨
        ∃ object ∈ objectNamesAll kept, place.holder = .object object
  | [], h => by
    rw [slotPlacesAll] at h
    cases h
  | kept :: rest, h => by
    rw [slotPlacesAll] at h
    rw [objectNamesAll]
    rcases List.mem_append.1 h with h | h
    · rcases mem_slotPlaces holder kept h with rfl | ⟨object, hobject, hholder⟩
      · exact .inl ⟨rfl, List.mem_cons_self ..⟩
      · exact .inr ⟨object, List.mem_append_left _ hobject, hholder⟩
    · rcases mem_slotPlacesAll holder rest h with ⟨hholder, hname⟩ | ⟨object, hobject, hholder⟩
      · exact .inl ⟨hholder, List.mem_cons_of_mem _ hname⟩
      · exact .inr ⟨object, List.mem_append_right _ hobject, hholder⟩

end

mutual

theorem nodup_slotPlaces (holder : Holder) : (kept : KeptField) → (objectNames kept).Nodup →
    Distinct kept → (slotPlaces holder kept).Nodup
  | .value _ _ _, _, _ => by
    rw [slotPlaces]
    exact List.nodup_nil
  | .reference _ _ _, _, _ => by
    rw [slotPlaces]
    exact List.nodup_singleton _
  | .shape _ _ object _ fields, hobjects, hdistinct => by
    rw [objectNames] at hobjects
    obtain ⟨hinner, -, hown⟩ := List.nodup_append.1 hobjects
    rw [Distinct] at hdistinct
    rw [slotPlaces]
    refine nodup_slotPlacesAll (.object object) fields ?_ hinner hdistinct.2 hdistinct.1
    rintro inner hmem heq
    rw [Holder.object.injEq] at heq
    exact hown inner hmem object (List.mem_singleton_self _) heq.symm

/-- The places of slots are different when no name is used twice. -/
theorem nodup_slotPlacesAll (holder : Holder) : (kept : List KeptField) →
    (∀ object ∈ objectNamesAll kept, holder ≠ .object object) → (objectNamesAll kept).Nodup →
      DistinctAll kept → (kept.map name).Nodup → (slotPlacesAll holder kept).Nodup
  | [], _, _, _, _ => by
    rw [slotPlacesAll]
    exact List.nodup_nil
  | kept :: rest, hholder, hobjects, hdistinct, hnames => by
    rw [objectNamesAll] at hholder hobjects
    rw [DistinctAll] at hdistinct
    obtain ⟨hname, hnames⟩ := List.nodup_cons.1 hnames
    obtain ⟨hfirst, hrest, hdisjoint⟩ := List.nodup_append.1 hobjects
    rw [slotPlacesAll]
    refine List.nodup_append.2 ⟨nodup_slotPlaces holder kept hfirst hdistinct.1,
      nodup_slotPlacesAll holder rest
        (fun object hmem => hholder object (List.mem_append_right _ hmem)) hrest hdistinct.2 hnames, ?_⟩
    rintro place hmem _ hmem' rfl
    rcases mem_slotPlaces holder kept hmem with rfl | ⟨object, hobject, heq⟩
    · rcases mem_slotPlacesAll holder rest hmem' with ⟨-, hmem'⟩ | ⟨object, hobject, heq⟩
      · exact hname hmem'
      · exact hholder object (List.mem_append_right _ hobject) heq
    · rcases mem_slotPlacesAll holder rest hmem' with ⟨heq', -⟩ | ⟨other, hother, heq'⟩
      · exact hholder object (List.mem_append_left _ hobject) (heq'.symm.trans heq)
      · rw [heq, Holder.object.injEq] at heq'
        exact hdisjoint object hobject other hother heq'

end

end KeptField

namespace Arena

/-! ### Counting -/

/-- Whether the field at a place is still a slot. -/
def IsOpen (arena : Arena) (place : FieldPlace) : Prop :=
  ∃ field, arena.fieldAt? place = some field ∧ field.type.isUnresolved = true

theorem unresolvedField?_eq_none_iff {type : ObjectType} :
    unresolvedField? type = none ↔ ∀ name field, type.fields.get? name = some field →
      field.type.isUnresolved = false := by
  rw [unresolvedField?, List.find?_eq_none]
  simp only [OrderedMap.mem_values_iff, Bool.not_eq_true]
  exact ⟨fun h name field hget => h field ⟨name, hget⟩, fun h field ⟨name, hget⟩ => h name field hget⟩

/-- An arena passes when no slot is left. -/
theorem checkResolved_eq_ok_iff {arena : Arena} :
    arena.checkResolved = .ok () ↔ ∀ place, ¬ arena.IsOpen place := by
  have hpass : arena.checkResolved = .ok () ↔
      ∀ type ∈ arena.roots.values ++ arena.objects.values, unresolvedField? type = none := by
    refine forM_eq_ok_iff.trans (forall₂_congr fun type _ => ?_)
    cases unresolvedField? type <;> simp
  rw [hpass]
  simp only [unresolvedField?_eq_none_iff, List.mem_append, OrderedMap.mem_values_iff]
  constructor
  · rintro h ⟨holder, name⟩ ⟨field, hfield, hopen⟩
    rw [fieldAt?] at hfield
    obtain ⟨type, htype, hget⟩ := Option.bind_eq_some_iff.1 hfield
    have hclosed : field.type.isUnresolved = false := by
      cases holder with
      | root owner => exact h type (.inl ⟨owner, htype⟩) name field hget
      | object object => exact h type (.inr ⟨object, htype⟩) name field hget
    rw [hclosed] at hopen
    cases hopen
  · rintro h type (⟨owner, htype⟩ | ⟨object, htype⟩) name field hget
    · refine Bool.eq_false_iff.2 fun hopen => h ⟨.root owner, name⟩ ⟨field, ?_, hopen⟩
      rw [fieldAt?, holder?, htype]
      exact hget
    · refine Bool.eq_false_iff.2 fun hopen => h ⟨.object object, name⟩ ⟨field, ?_, hopen⟩
      rw [fieldAt?, holder?, htype]
      exact hget

theorem IsOpen.settle {arena : Arena} {place : FieldPlace} (h : arena.IsOpen place)
    {slot : ReferenceSlot} (hplace : arena.placeOf slot ≠ some place) (node : String) :
    (arena.settle slot node).IsOpen place := by
  obtain ⟨field, hfield, htype⟩ := h
  refine ⟨field, ?_, htype⟩
  rw [fieldAt?_settle, if_neg hplace]
  exact hfield

/-- A slot fills no open place but its own. -/
theorem isOpen_settle_erase {arena : Arena} {places : List FieldPlace} (hnodup : places.Nodup)
    (hopen : ∀ place ∈ places, arena.IsOpen place) {slot : ReferenceSlot} {target : FieldPlace}
    (htarget : arena.placeOf slot = some target) (node : String) :
    ∀ place ∈ places.erase target, (arena.settle slot node).IsOpen place := by
  intro place hplace
  obtain ⟨hne, hmem⟩ := hnodup.mem_erase_iff.1 hplace
  refine (hopen place hmem).settle ?_ node
  rw [htarget, ne_eq, Option.some.injEq]
  exact Ne.symm hne

/-- Fewer slots than open places leave one open. -/
theorem exists_isOpen_settleAll {slots : List ReferenceSlot} {arena : Arena}
    {places : List FieldPlace} (hnodup : places.Nodup) (hopen : ∀ place ∈ places, arena.IsOpen place)
    (hlength : slots.length < places.length) :
    ∃ place ∈ places, (arena.settleAll slots).IsOpen place := by
  induction slots generalizing arena places with
  | nil =>
    obtain ⟨place, hplace⟩ := List.exists_mem_of_length_pos hlength
    exact ⟨place, hplace, hopen place hplace⟩
  | cons slot rest ih =>
    rw [List.length_cons] at hlength
    cases hplaceOf : arena.placeOf slot with
    | none =>
      refine ih hnodup (fun place hplace => (hopen place hplace).settle ?_ _) (by omega)
      rw [hplaceOf]
      simp
    | some target =>
      have hlarge : rest.length < (places.erase target).length := by
        rw [List.length_erase]
        split <;> omega
      obtain ⟨place, hplace, hleft⟩ :=
        ih (hnodup.erase target) (isOpen_settle_erase hnodup hopen hplaceOf _) hlarge
      exact ⟨place, List.mem_of_mem_erase hplace, hleft⟩

/-- When as many slots as there are open places leave none open, every slot fills one of them, and no
other field changes. -/
theorem settleAll_exact {slots : List ReferenceSlot} {arena : Arena} {places : List FieldPlace}
    (hnodup : places.Nodup) (hopen : ∀ place ∈ places, arena.IsOpen place)
    (hlength : slots.length ≤ places.length)
    (hclosed : ∀ place ∈ places, ¬ (arena.settleAll slots).IsOpen place) :
    (∀ slot ∈ slots, ∃ place ∈ places, ∃ field,
      (arena.settleAll slots).fieldAt? place = some field ∧
        field.type = resolvedType slot (Naming.sanitize slot.target)) ∧
      ∀ place, place ∉ places → (arena.settleAll slots).fieldAt? place = arena.fieldAt? place := by
  induction slots generalizing arena places with
  | nil => exact ⟨fun _ h => absurd h List.not_mem_nil, fun _ _ => rfl⟩
  | cons slot rest ih =>
    rw [List.length_cons] at hlength
    let next := arena.settle slot (Naming.sanitize slot.target)
    change (∀ place ∈ places, ¬ (next.settleAll rest).IsOpen place) at hclosed
    change (∀ slot ∈ _, ∃ place ∈ places, ∃ field, (next.settleAll rest).fieldAt? place = some field ∧ _)
      ∧ ∀ place, place ∉ places → (next.settleAll rest).fieldAt? place = _
    obtain ⟨target, htarget, hplaceOf⟩ : ∃ target ∈ places, arena.placeOf slot = some target := by
      -- A slot that misses all places leaves one open: there are fewer slots than places then.
      by_contra hmissed
      have hstill : ∀ place ∈ places, next.IsOpen place := fun place hplace =>
        (hopen place hplace).settle (fun heq => hmissed ⟨place, hplace, heq⟩) _
      obtain ⟨place, hplace, hleft⟩ :=
        exists_isOpen_settleAll hnodup hstill (show rest.length < places.length by omega)
      exact hclosed place hplace hleft
    have hnext : ∀ place, place ≠ target → next.fieldAt? place = arena.fieldAt? place := by
      intro place hne
      rw [fieldAt?_settle, if_neg]
      rw [hplaceOf, Option.some.injEq]
      exact Ne.symm hne
    obtain ⟨hfilled, hsame⟩ := ih (hnodup.erase target)
      (isOpen_settle_erase hnodup hopen hplaceOf (Naming.sanitize slot.target))
      (by rw [List.length_erase_of_mem htarget]; omega)
      fun place hplace => hclosed place (List.mem_of_mem_erase hplace)
    refine ⟨fun other hother => ?_, fun place hplace => ?_⟩
    · rcases List.mem_cons.1 hother with rfl | hother
      · obtain ⟨field, hfield, -⟩ := hopen target htarget
        refine ⟨target, htarget, { field with type := resolvedType other _ }, ?_, rfl⟩
        rw [hsame target fun hmem => (hnodup.mem_erase_iff.1 hmem).1 rfl, fieldAt?_settle,
          if_pos hplaceOf, hfield, Option.map_some]
      · obtain ⟨place, hplace, hfield⟩ := hfilled other hother
        exact ⟨place, List.mem_of_mem_erase hplace, hfield⟩
    · rw [hsame place fun hmem => hplace (List.mem_of_mem_erase hmem)]
      exact hnext place fun heq => hplace (heq ▸ htarget)

/-! ### Finding places from the root -/

/-- The holders that are found from a root by following the object types of fields. -/
inductive Under (arena : Arena) (owner : String) : Holder → Prop
  | root : Under arena owner (.root owner)
  | object {place : FieldPlace} {field : OutputField} {object : String} :
      Under arena owner place.holder → arena.fieldAt? place = some field →
        field.type.objectName? = some object → Under arena owner (.object object)

end Arena

namespace KeptField

open Arena (IsOpen Under)

theorem isUnresolved_outputType_shape (owner path : String) (head : FieldHead) (inList : Bool)
    (object : String) (embedded : Bool) (fields : List KeptField) :
    (outputType owner path (.shape head inList object embedded fields)).isUnresolved = false ∧
      (outputType owner path (.shape head inList object embedded fields)).objectName? =
        some object := by
  obtain ⟨source, nonNull, description, hooks⟩ := head
  cases inList <;> cases nonNull <;> exact ⟨rfl, rfl⟩

section Stands

variable {arena last : Arena} {owner : String}

mutual

theorem Stands.isOpen (path : String) (holder : Holder) : (kept : KeptField) →
    Stands owner path arena.objects kept →
    (∃ field, arena.fieldAt? ⟨holder, name kept⟩ = some field ∧
      field.type = outputType owner path kept) →
      ∀ place ∈ slotPlaces holder kept, arena.IsOpen place
  | .value _ _ _, _, _ => by
    rw [slotPlaces]
    exact fun _ h => absurd h List.not_mem_nil
  | .reference head target cardinality, _, hfield => by
    obtain ⟨field, hfield, htype⟩ := hfield
    intro place hplace
    rw [slotPlaces] at hplace
    obtain rfl := List.mem_singleton.1 hplace
    refine ⟨field, hfield, ?_⟩
    rw [htype]
    obtain ⟨source, nonNull, description, hooks⟩ := head
    cases nonNull <;> rfl
  | .shape head _ object _ fields, hstands, _ => by
    rw [Stands] at hstands
    obtain ⟨type, hget, hfields⟩ := hstands
    rw [slotPlaces]
    refine StandsAll.isOpen (Path.child path head.source) (.object object) fields type.fields
      hfields fun name field h => ?_
    rw [Arena.fieldAt?, Arena.holder?, hget, Option.bind_some]
    exact h

/-- The places of slots are open in the beginning. -/
theorem StandsAll.isOpen (path : String) (holder : Holder) : (kept : List KeptField) →
    (done : OrderedMap String OutputField) → StandsAll owner path arena.objects kept done →
    (∀ name field, done.get? name = some field → arena.fieldAt? ⟨holder, name⟩ = some field) →
      ∀ place ∈ slotPlacesAll holder kept, arena.IsOpen place
  | [], _, _, _ => by
    rw [slotPlacesAll]
    exact fun _ h => absurd h List.not_mem_nil
  | kept :: rest, done, hstands, hdone => by
    rw [StandsAll] at hstands
    obtain ⟨⟨field, hfield, htype⟩, hkept, hrest⟩ := hstands
    intro place hplace
    rw [slotPlacesAll] at hplace
    rcases List.mem_append.1 hplace with hplace | hplace
    · exact Stands.isOpen path holder kept hkept ⟨field, hdone _ _ hfield, htype⟩ place hplace
    · exact StandsAll.isOpen path holder rest done hrest hdone place hplace

end

mutual

theorem Stands.under (hsame : ∀ place field, arena.fieldAt? place = some field →
      field.type.isUnresolved = false → last.fieldAt? place = some field)
    (path : String) (holder : Holder) (hholder : last.Under owner holder) : (kept : KeptField) →
    Stands owner path arena.objects kept →
    (∃ field, arena.fieldAt? ⟨holder, name kept⟩ = some field ∧
      field.type = outputType owner path kept) →
      ∀ place ∈ slotPlaces holder kept, last.Under owner place.holder
  | .value _ _ _, _, _ => by
    rw [slotPlaces]
    exact fun _ h => absurd h List.not_mem_nil
  | .reference head target cardinality, _, _ => by
    intro place hplace
    rw [slotPlaces] at hplace
    obtain rfl := List.mem_singleton.1 hplace
    exact hholder
  | .shape head inList object embedded fields, hstands, hfield => by
    obtain ⟨field, hfield, htype⟩ := hfield
    obtain ⟨hresolved, hobject⟩ :=
      isUnresolved_outputType_shape owner path head inList object embedded fields
    rw [← htype] at hresolved hobject
    rw [Stands] at hstands
    obtain ⟨type, hget, hfields⟩ := hstands
    rw [slotPlaces]
    refine StandsAll.under hsame (Path.child path head.source) (.object object)
      (.object hholder (hsame _ _ hfield hresolved) hobject) fields type.fields hfields
      fun name field h => ?_
    rw [Arena.fieldAt?, Arena.holder?, hget, Option.bind_some]
    exact h

/-- The places of slots are found from the root, as long as no other field changes. -/
theorem StandsAll.under (hsame : ∀ place field, arena.fieldAt? place = some field →
      field.type.isUnresolved = false → last.fieldAt? place = some field)
    (path : String) (holder : Holder) (hholder : last.Under owner holder) :
    (kept : List KeptField) → (done : OrderedMap String OutputField) →
    StandsAll owner path arena.objects kept done →
    (∀ name field, done.get? name = some field → arena.fieldAt? ⟨holder, name⟩ = some field) →
      ∀ place ∈ slotPlacesAll holder kept, last.Under owner place.holder
  | [], _, _, _ => by
    rw [slotPlacesAll]
    exact fun _ h => absurd h List.not_mem_nil
  | kept :: rest, done, hstands, hdone => by
    rw [StandsAll] at hstands
    obtain ⟨⟨field, hfield, htype⟩, hkept, hrest⟩ := hstands
    intro place hplace
    rw [slotPlacesAll] at hplace
    rcases List.mem_append.1 hplace with hplace | hplace
    · exact Stands.under hsame path holder hholder kept hkept ⟨field, hdone _ _ hfield, htype⟩ place
        hplace
    · exact StandsAll.under hsame path holder hholder rest done hrest hdone place hplace

end

end Stands

end KeptField

end ModelGraph
