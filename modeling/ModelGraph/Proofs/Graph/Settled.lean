import ModelGraph.Proofs.Graph.Beside
import ModelGraph.Proofs.Graph.References

/-!
# Resolving beside other types

Of two arenas side by side each is resolved for itself, since the path of a slot stays in the arena
that it starts in.

## Main definitions

- `Arena.Speaks` — an arena whose fields use a vocabulary

## Main statements

- `Arena.settled_append` — arenas side by side are resolved one by one
-/

namespace ModelGraph

namespace Arena

/-! ### Paths beside other types -/

theorem holder?_append (others arena : Arena) (holder : Holder) :
    (others ++ arena).holder? holder = (arena.holder? holder).or (others.holder? holder) := by
  cases holder <;> exact OrderedMap.get?_append

/-- Whether the fields of an arena have types and arguments in a vocabulary. -/
def Speaks (words : Vocabulary) (arena : Arena) : Prop :=
  ∀ place field, arena.fieldAt? place = some field → field.Uses words arena.inputs

/-- A path leads to the same place in an arena that agrees on all holders on the way. -/
theorem locate_of_agree {arena large : Arena} (agrees : Holder → Prop)
    (hagree : ∀ holder, agrees holder → large.holder? holder = arena.holder? holder)
    (hnext : ∀ place field object, arena.fieldAt? place = some field →
      field.type.objectName? = some object → agrees (.object object))
    {holder : Holder} (hholder : agrees holder) (names : List String) :
    large.locate holder names = arena.locate holder names ∧
      ∀ place, arena.locate holder names = some place → agrees place.holder := by
  induction names generalizing holder with
  | nil => exact ⟨rfl, fun _ h => by cases h⟩
  | cons name rest ih =>
    cases rest with
    | nil =>
      refine ⟨rfl, fun place h => ?_⟩
      rw [locate, Option.some.injEq] at h
      rw [← h]
      exact hholder
    | cons next rest =>
      have hfield : large.fieldAt? ⟨holder, name⟩ = arena.fieldAt? ⟨holder, name⟩ := by
        rw [fieldAt?, hagree holder hholder, fieldAt?]
      rw [locate, locate, hfield]
      cases hstep : arena.fieldAt? ⟨holder, name⟩ with
      | none => exact ⟨rfl, fun _ h => by cases h⟩
      | some field =>
        rw [Option.bind_some]
        cases hobject : field.type.objectName? with
        | none => exact ⟨rfl, fun _ h => by cases h⟩
        | some object => exact ih (hnext _ field object hstep hobject)

theorem objects_of_uses {words : Vocabulary} {type : FieldType} (h : type.Uses words)
    {object : String} (hobject : type.objectName? = some object) : words.objects object := by
  rw [FieldType.Uses] at h
  rw [FieldType.objectName?] at hobject
  split at hobject
  · next name hcore =>
    rw [hcore] at h
    rw [← Option.some.inj hobject]
    exact h
  · cases hobject

section Sides

variable {words : Vocabulary} {others arena : Arena}

theorem holder?_append_of_none {holder : Holder} (h : others.holder? holder = none) :
    (others ++ arena).holder? holder = arena.holder? holder := by
  rw [holder?_append, h, Option.or_none]

theorem holder?_append_of_none' {holder : Holder} (h : arena.holder? holder = none) :
    (others ++ arena).holder? holder = others.holder? holder := by
  rw [holder?_append, h, Option.none_or]

/-- A path in the second of two arenas stays in it. -/
theorem placeOf_append (hspeaks : arena.Speaks words)
    (hfree : ∀ name, words.objects name → others.holder? (.object name) = none)
    {slot : ReferenceSlot} (howner : others.holder? (.root slot.owner) = none) :
    (others ++ arena).placeOf slot = arena.placeOf slot ∧
      ∀ place, arena.placeOf slot = some place → others.holder? place.holder = none :=
  locate_of_agree (fun holder => others.holder? holder = none)
    (fun _ => holder?_append_of_none)
    (fun place field object hfield hobject =>
      hfree object (objects_of_uses (hspeaks place field hfield).type hobject)) howner _

/-- A path in the first of two arenas stays in it. -/
theorem placeOf_append' (hspeaks : others.Speaks words)
    (hfree : ∀ name, words.objects name → arena.holder? (.object name) = none)
    {slot : ReferenceSlot} (howner : arena.holder? (.root slot.owner) = none) :
    (others ++ arena).placeOf slot = others.placeOf slot ∧
      ∀ place, others.placeOf slot = some place → arena.holder? place.holder = none :=
  locate_of_agree (fun holder => arena.holder? holder = none)
    (fun _ => holder?_append_of_none')
    (fun place field object hfield hobject =>
      hfree object (objects_of_uses (hspeaks place field hfield).type hobject)) howner _

theorem setHolder_append (type : ObjectType) (holder : Holder) :
    (others ++ arena).setHolder type holder = others ++ arena.setHolder type holder := by
  cases holder with
  | root name =>
    exact congrArg (fun roots => { (others ++ arena) with roots }) OrderedMap.append_insert.symm
  | object name =>
    exact congrArg (fun objects => { (others ++ arena) with objects }) OrderedMap.append_insert.symm

theorem setHolder_append' (type : ObjectType) {holder : Holder} {old : ObjectType}
    (hold : others.holder? holder = some old) (hnone : arena.holder? holder = none) :
    (others ++ arena).setHolder type holder = others.setHolder type holder ++ arena := by
  cases holder with
  | root name =>
    refine congrArg (fun roots => { (others ++ arena) with roots }) ?_
    exact (OrderedMap.insert_append (OrderedMap.mem_keys_of_get? hold)
      (OrderedMap.get?_eq_none_iff.1 hnone)).symm
  | object name =>
    refine congrArg (fun objects => { (others ++ arena) with objects }) ?_
    exact (OrderedMap.insert_append (OrderedMap.mem_keys_of_get? hold)
      (OrderedMap.get?_eq_none_iff.1 hnone)).symm

/-- A field of the second of two arenas gets another type. -/
theorem retypeAt_append {place : FieldPlace} (h : others.holder? place.holder = none)
    (type : FieldType) :
    (others ++ arena).retypeAt place type = others ++ arena.retypeAt place type := by
  rw [retypeAt, retypeAt, holder?_append_of_none h]
  cases arena.holder? place.holder with
  | none => rfl
  | some object =>
    dsimp only
    cases object.fields.get? place.name with
    | none => rfl
    | some field => exact setHolder_append _ _

/-- A field of the first of two arenas gets another type. -/
theorem retypeAt_append' {place : FieldPlace} (h : arena.holder? place.holder = none)
    (type : FieldType) :
    (others ++ arena).retypeAt place type = others.retypeAt place type ++ arena := by
  rw [retypeAt, retypeAt, holder?_append_of_none' h]
  cases hholder : others.holder? place.holder with
  | none => rfl
  | some object =>
    dsimp only
    cases object.fields.get? place.name with
    | none => rfl
    | some field => exact setHolder_append' _ hholder h

theorem connect_append {slot : ReferenceSlot}
    (h : slot.cardinality = .plural →
      Naming.connectionType slot.owner slot.path ∉ others.connections.keys) (node : String) :
    (others ++ arena).connect slot node = others ++ arena.connect slot node := by
  rw [connect, connect]
  cases hcardinality : slot.cardinality with
  | single => rfl
  | plural =>
    exact congrArg (fun connections => { (others ++ arena) with connections })
      (OrderedMap.append_insertIfNew (h hcardinality)).symm

theorem connect_append' (h : arena.connections = ∅) (slot : ReferenceSlot) (node : String) :
    (others ++ arena).connect slot node = others.connect slot node ++ arena := by
  rw [connect, connect]
  cases slot.cardinality with
  | single => rfl
  | plural =>
    refine congrArg (fun connections => { (others ++ arena) with connections }) ?_
    change OrderedMap.insertIfNew (others.connections ++ arena.connections) _ _ =
      OrderedMap.insertIfNew others.connections _ _ ++ arena.connections
    rw [h]
    rfl

end Sides

/-! ### One slot after another -/

theorem Speaks.settle {words : Vocabulary} {arena : Arena} (h : arena.Speaks words)
    {slot : ReferenceSlot} {node : String} (htype : (resolvedType slot node).Uses words) :
    (arena.settle slot node).Speaks words := by
  intro place field hfield
  rw [(settle_frame arena slot node).2.2.2]
  rw [fieldAt?_settle] at hfield
  split at hfield
  · obtain ⟨old, hold, rfl⟩ := Option.map_eq_some_iff.1 hfield
    exact ⟨htype, (h place old hold).args⟩
  · exact h place field hfield

theorem holder?_settle_eq_none_iff (arena : Arena) (slot : ReferenceSlot) (node : String)
    (holder : Holder) : (arena.settle slot node).holder? holder = none ↔ arena.holder? holder = none := by
  obtain ⟨hroots, hobjects, -, -⟩ := settle_frame arena slot node
  cases holder with
  | root name => simp only [holder?, OrderedMap.get?_eq_none_iff, hroots]
  | object name => simp only [holder?, OrderedMap.get?_eq_none_iff, hobjects]

theorem holder?_settleAll_eq_none_iff (arena : Arena) (slots : List ReferenceSlot)
    (holder : Holder) : (arena.settleAll slots).holder? holder = none ↔ arena.holder? holder = none := by
  induction slots generalizing arena with
  | nil => rfl
  | cons slot rest ih => exact (ih _).trans (holder?_settle_eq_none_iff arena slot _ holder)

theorem Speaks.settleAll {words : Vocabulary} {arena : Arena} {slots : List ReferenceSlot}
    (h : arena.Speaks words)
    (htypes : ∀ slot ∈ slots, (resolvedType slot (Naming.sanitize slot.target)).Uses words) :
    (arena.settleAll slots).Speaks words := by
  induction slots generalizing arena with
  | nil => exact h
  | cons slot rest ih =>
    obtain ⟨htype, hrest⟩ := List.forall_mem_cons.1 htypes
    exact ih (h.settle htype) hrest

theorem holder?_connect {arena : Arena} {slot : ReferenceSlot} {node : String}
    {holder : Holder} : (arena.connect slot node).holder? holder = arena.holder? holder := by
  obtain ⟨hroots, hobjects, -, -⟩ := connect_frame arena slot node
  cases holder <;> simp only [holder?, hroots, hobjects]

/-- A type keeps all but its fields when a slot is resolved. -/
theorem exists_holder?_settle {arena : Arena} {slot : ReferenceSlot} {node : String}
    {holder : Holder} {type : ObjectType} (h : (arena.settle slot node).holder? holder = some type) :
    ∃ old, arena.holder? holder = some old ∧ type = { old with fields := type.fields } := by
  rw [settle] at h
  split at h
  · next place _ =>
    rw [retypeAt] at h
    split at h
    · next object hobject =>
      split at h
      · rw [holder?_setHolder] at h
        split at h
        · next heq =>
          rw [← Option.some.inj h, ← heq, ← holder?_connect]
          exact ⟨object, hobject, rfl⟩
        · rw [holder?_connect] at h
          exact ⟨type, h, rfl⟩
      · rw [holder?_connect] at h
        exact ⟨type, h, rfl⟩
    · rw [holder?_connect] at h
      exact ⟨type, h, rfl⟩
  · rw [holder?_connect] at h
    exact ⟨type, h, rfl⟩

theorem exists_holder?_settleAll {arena : Arena} {slots : List ReferenceSlot} {holder : Holder}
    {type : ObjectType} (h : (arena.settleAll slots).holder? holder = some type) :
    ∃ old, arena.holder? holder = some old ∧ type = { old with fields := type.fields } := by
  induction slots generalizing arena with
  | nil => exact ⟨type, h, rfl⟩
  | cons slot rest ih =>
    obtain ⟨middle, hmiddle, heq⟩ := ih h
    obtain ⟨old, hold, heq'⟩ := exists_holder?_settle hmiddle
    exact ⟨old, hold, heq.trans (congrArg (fun type' => { type' with fields := type.fields }) heq')⟩

theorem rootModels_settle (arena : Arena) (slot : ReferenceSlot) (node : String) :
    (arena.settle slot node).rootModels = arena.rootModels := by
  have hconnect : (arena.connect slot node).rootModels = arena.rootModels := by
    rw [connect]
    cases slot.cardinality <;> rfl
  rw [settle]
  split
  · next place _ =>
    rw [retypeAt]
    split
    · split
      · rw [← hconnect]
        cases place.holder <;> rfl
      · exact hconnect
    · exact hconnect
  · exact hconnect

theorem rootModels_settleAll (arena : Arena) (slots : List ReferenceSlot) :
    (arena.settleAll slots).rootModels = arena.rootModels := by
  induction slots generalizing arena with
  | nil => rfl
  | cons slot rest ih => exact (ih _).trans (rootModels_settle arena slot _)

/-! ### Arenas side by side -/

/-- Slots of the second of two arenas are resolved in it. -/
theorem settleAll_append {words : Vocabulary} {others arena : Arena} {slots : List ReferenceSlot}
    (hspeaks : arena.Speaks words)
    (hfree : ∀ name, words.objects name → others.holder? (.object name) = none)
    (hslots : ∀ slot ∈ slots, (resolvedType slot (Naming.sanitize slot.target)).Uses words ∧
      others.holder? (.root slot.owner) = none ∧
      (slot.cardinality = .plural →
        Naming.connectionType slot.owner slot.path ∉ others.connections.keys)) :
    (others ++ arena).settleAll slots = others ++ arena.settleAll slots := by
  induction slots generalizing arena with
  | nil => rfl
  | cons slot rest ih =>
    obtain ⟨⟨htype, howner, hconnection⟩, hrest⟩ := List.forall_mem_cons.1 hslots
    have hplace := placeOf_append hspeaks hfree howner
    have hstep : (others ++ arena).settle slot (Naming.sanitize slot.target) =
        others ++ arena.settle slot (Naming.sanitize slot.target) := by
      rw [settle, settle, hplace.1, connect_append hconnection]
      cases hlocate : arena.placeOf slot with
      | none => rfl
      | some place => exact retypeAt_append (hplace.2 place hlocate) _
    change ((others ++ arena).settle slot _).settleAll rest = _
    rw [hstep]
    exact ih (hspeaks.settle htype) hrest

/-- Slots of the first of two arenas are resolved in it. -/
theorem settleAll_append' {words : Vocabulary} {others arena : Arena} {slots : List ReferenceSlot}
    (hspeaks : others.Speaks words)
    (hfree : ∀ name, words.objects name → arena.holder? (.object name) = none)
    (hslots : ∀ slot ∈ slots, (resolvedType slot (Naming.sanitize slot.target)).Uses words ∧
      arena.holder? (.root slot.owner) = none)
    (hconnections : arena.connections = ∅) :
    (others ++ arena).settleAll slots = others.settleAll slots ++ arena := by
  induction slots generalizing others with
  | nil => rfl
  | cons slot rest ih =>
    obtain ⟨⟨htype, howner⟩, hrest⟩ := List.forall_mem_cons.1 hslots
    have hplace := placeOf_append' hspeaks hfree howner
    have hstep : (others ++ arena).settle slot (Naming.sanitize slot.target) =
        others.settle slot (Naming.sanitize slot.target) ++ arena := by
      rw [settle, settle, hplace.1, connect_append' hconnections]
      cases hlocate : others.placeOf slot with
      | none => rfl
      | some place => exact retypeAt_append' (hplace.2 place hlocate) _
    change ((others ++ arena).settle slot _).settleAll rest = _
    rw [hstep]
    exact ih (hspeaks.settle htype) hrest

/-- An arena with slots that stay in it when it is put beside another one: fields and resolved slots
mention no object type of the other arena, and no root or connection of it has the name of one of
theirs. -/
structure StaysApart (words : Vocabulary) (arena others : Arena) : Prop where
  speaks : arena.Speaks words
  free : ∀ name, words.objects name → others.holder? (.object name) = none
  slots : ∀ slot ∈ arena.pending, (resolvedType slot (Naming.sanitize slot.target)).Uses words ∧
    others.holder? (.root slot.owner) = none

/-- Arenas side by side are resolved one by one. -/
theorem settled_append {words words' : Vocabulary} {others arena : Arena}
    (h : StaysApart words arena others) (h' : StaysApart words' others arena)
    (hconnections : arena.connections = ∅)
    (hnames : ∀ slot ∈ arena.pending, slot.cardinality = .plural →
      Naming.connectionType slot.owner slot.path ∉ others.settled.connections.keys) :
    (others ++ arena).settled = others.settled ++ arena.settled := by
  have hothers : Arena.settleAll ({ others with pending := [] } ++ { arena with pending := [] })
      others.pending = others.settled ++ { arena with pending := [] } :=
    settleAll_append' h'.speaks h'.free h'.slots hconnections
  have harena : (others.settled ++ { arena with pending := [] }).settleAll arena.pending =
      others.settled ++ arena.settled :=
    settleAll_append h.speaks
      (fun name hname => (holder?_settleAll_eq_none_iff _ _ _).2 (h.free name hname))
      fun slot hslot => ⟨(h.slots slot hslot).1,
        (holder?_settleAll_eq_none_iff _ _ _).2 (h.slots slot hslot).2, hnames slot hslot⟩
  change Arena.settleAll ({ others with pending := [] } ++ { arena with pending := [] })
    (others.pending ++ arena.pending) = _
  rw [settleAll, List.foldl_append]
  change Arena.settleAll (Arena.settleAll _ others.pending) arena.pending = _
  rw [hothers]
  exact harena

end Arena

end ModelGraph
