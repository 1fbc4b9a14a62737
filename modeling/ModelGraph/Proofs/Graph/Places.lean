import ModelGraph.Graph.References
import ModelGraph.Proofs.OrderedMap

/-!
# Places of fields in an arena

A slot is replaced in two steps: its path is followed to the place of a field, and the field found
there gets another type. A place is a root or a finished type together with a field name. Following
a path only reads the object types of the fields on the way, so it finds the same place as long as
these fields keep their types.

## Main definitions

- `Holder`, `FieldPlace` — where a field can stand
- `Arena.fieldAt?` — the field at a place
- `Arena.locate` — the place at the end of a path
- `Arena.retypeAt` — gives the field at a place another type

## Main statements

- `Arena.replaceAlong_eq` — replacing along a path gives the field at its place another type
- `Arena.fieldAt?_retypeAt` — which fields another type at a place changes
- `Arena.locate_retypeAt` — paths that another type at a place leaves alone
-/

namespace ModelGraph

/-- What holds fields: a root type or a finished type below the roots. -/
inductive Holder where
  | root (name : String)
  | object (name : String)
deriving DecidableEq

/-- The place of a field. -/
structure FieldPlace where
  holder : Holder
  name : String
deriving DecidableEq

namespace Arena

/-- The type that holds fields. -/
def holder? (arena : Arena) : Holder → Option ObjectType
  | .root name => arena.roots.get? name
  | .object name => arena.objects.get? name

/-- Puts another type in the place of a holder. -/
def setHolder (arena : Arena) (type : ObjectType) : Holder → Arena
  | .root name => { arena with roots := arena.roots.insert name type }
  | .object name => { arena with objects := arena.objects.insert name type }

/-- The field at a place. -/
def fieldAt? (arena : Arena) (place : FieldPlace) : Option OutputField :=
  (arena.holder? place.holder).bind fun type => type.fields.get? place.name

/-- Gives the field at a place another type; where there is none nothing changes. -/
def retypeAt (arena : Arena) (place : FieldPlace) (type : FieldType) : Arena :=
  match arena.holder? place.holder with
  | some holder =>
    match holder.fields.get? place.name with
    | some field => arena.setHolder (retype holder place.name field type) place.holder
    | none => arena
  | none => arena

/-- The place at the end of a list of field names that starts from a holder. Every name but the
last has to be that of a field with an object type. -/
def locate (arena : Arena) (holder : Holder) : List String → Option FieldPlace
  | [] => none
  | [name] => some ⟨holder, name⟩
  | name :: next :: rest =>
    match (arena.fieldAt? ⟨holder, name⟩).bind fun field => field.type.objectName? with
    | some object => locate arena (.object object) (next :: rest)
    | none => none

/-- Where a path starts that is followed from an owner, or from a type below it. -/
def startOf (owner : String) : Option String → Holder
  | none => .root owner
  | some object => .object object

/-- Replacing along a path gives the field at the end of the path another type. -/
theorem replaceAlong_eq (arena : Arena) (owner : String) (object : Option String)
    (type : FieldType) (names : List String) :
    arena.replaceAlong owner object type names =
      match arena.locate (startOf owner object) names with
      | some place => arena.retypeAt place type
      | none => arena := by
  induction names generalizing object with
  | nil => cases object <;> rfl
  | cons name rest ih =>
    cases rest with
    | nil =>
      cases object with
      | none =>
        rw [locate, startOf]
        cases hroot : arena.roots.get? owner with
        | none => simp only [replaceAlong, retypeAt, holder?, hroot]
        | some root =>
          cases hfield : root.fields.get? name <;>
            simp only [replaceAlong, retypeAt, holder?, setHolder, hroot, hfield]
      | some object =>
        rw [locate, startOf]
        cases hobject : arena.objects.get? object with
        | none => simp only [replaceAlong, retypeAt, holder?, hobject]
        | some type =>
          cases hfield : type.fields.get? name <;>
            simp only [replaceAlong, retypeAt, holder?, setHolder, hobject, hfield]
    | cons next rest =>
      -- One step of the walk is one look-up, whether it starts at a root or at an object.
      have hfields : ((arena.fieldsOf? owner object).bind fun fields => fields.get? name) =
          arena.fieldAt? ⟨startOf owner object, name⟩ := by
        cases object with
        | none => simp only [fieldsOf?, fieldAt?, startOf, holder?, Option.bind_map]; rfl
        | some object => simp only [fieldsOf?, fieldAt?, startOf, holder?, Option.bind_map]; rfl
      rw [replaceAlong, locate, hfields]
      · cases arena.fieldAt? ⟨startOf owner object, name⟩ with
        | none => rfl
        | some field =>
          dsimp only [Option.bind_some]
          cases field.type.objectName? with
          | none => rfl
          | some nextObject => exact ih (some nextObject)
      · simp

/-! ### Reading after another type -/

theorem holder?_setHolder (arena : Arena) (type : ObjectType) (holder other : Holder) :
    (arena.setHolder type holder).holder? other =
      if holder = other then some type else arena.holder? other := by
  cases holder <;> cases other <;> simp [setHolder, holder?, OrderedMap.get?_insert]

/-- Another type at a place changes the field there and no other one. -/
theorem fieldAt?_retypeAt (arena : Arena) (place other : FieldPlace) (type : FieldType) :
    (arena.retypeAt place type).fieldAt? other =
      if place = other then (arena.fieldAt? other).map fun field => { field with type }
      else arena.fieldAt? other := by
  obtain ⟨holder, name⟩ := place
  obtain ⟨holder', name'⟩ := other
  simp only [retypeAt, fieldAt?, FieldPlace.mk.injEq]
  cases hholder : arena.holder? holder with
  | none =>
    by_cases h : holder = holder' ∧ name = name'
    · rw [if_pos h, ← h.1, hholder]
      rfl
    · rw [if_neg h]
  | some object =>
    dsimp only
    cases hfield : object.fields.get? name with
    | none =>
      by_cases h : holder = holder' ∧ name = name'
      · rw [if_pos h, ← h.1, ← h.2, hholder, Option.bind_some, hfield]
        rfl
      · rw [if_neg h]
    | some field =>
      dsimp only
      rw [holder?_setHolder]
      by_cases hh : holder = holder'
      · subst hh
        by_cases hn : name = name'
        · subst hn
          simp [hholder, hfield, retype, OrderedMap.get?_insert]
        · simp [hholder, hn, retype, OrderedMap.get?_insert]
      · simp [hh]

/-- A path leads where it did when a field gets another type, if the path does not lead through the
type of that field, or the other type has the same object type. -/
theorem locate_retypeAt (arena : Arena) (place : FieldPlace) (type : FieldType)
    (hplace : ∀ field, arena.fieldAt? place = some field →
      field.type.objectName? = none ∨ field.type = type)
    (holder : Holder) (names : List String) (target : FieldPlace)
    (h : arena.locate holder names = some target) :
    (arena.retypeAt place type).locate holder names = some target := by
  induction names generalizing holder with
  | nil => cases h
  | cons name rest ih =>
    cases rest with
    | nil => exact h
    | cons next rest =>
      rw [locate] at h ⊢
      cases hfield : arena.fieldAt? ⟨holder, name⟩ with
      | none =>
        rw [hfield] at h
        cases h
      | some field =>
        rw [hfield, Option.bind_some] at h
        cases hobject : field.type.objectName? with
        | none =>
          rw [hobject] at h
          cases h
        | some object =>
          rw [hobject] at h
          rw [fieldAt?_retypeAt, hfield]
          by_cases heq : place = ⟨holder, name⟩
          · rcases hplace field (heq ▸ hfield) with hnone | rfl
            · rw [hnone] at hobject
              cases hobject
            · rw [if_pos heq, Option.map_some, Option.bind_some, hobject]
              exact ih _ h
          · rw [if_neg heq, Option.bind_some, hobject]
            exact ih _ h

/-- Where paths lead depends on roots and object types only. -/
theorem locate_congr {arena other : Arena} (hroots : arena.roots = other.roots)
    (hobjects : arena.objects = other.objects) (holder : Holder) (names : List String) :
    arena.locate holder names = other.locate holder names := by
  have hholder : ∀ holder, arena.holder? holder = other.holder? holder := by
    intro holder
    cases holder with
    | root name => rw [holder?, holder?, hroots]
    | object name => rw [holder?, holder?, hobjects]
  induction names generalizing holder with
  | nil => rfl
  | cons name rest ih =>
    cases rest with
    | nil => rfl
    | cons next rest => simp only [locate, fieldAt?, hholder, ih]

end Arena

end ModelGraph
