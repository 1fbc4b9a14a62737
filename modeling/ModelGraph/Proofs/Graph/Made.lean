import ModelGraph.Proofs.Graph.Outcome
import ModelGraph.Proofs.Graph.Traced

/-!
# The types that a legible run makes

In a legible run every slot is replaced at its own place, and nothing else changes. So every type of
the run is made for one of its kept fields, with the outputs of their targets for references, and so
are the fields of its roots.

## Main definitions

- `KeptField.settledType` — the type of a kept field once all slots are resolved
- `PlacedField.Makes` — the types that are made for a field

## Main statements

- `Run.Legible.exists_fieldAt?` — resolving gives slots the outputs of their targets
- `Run.Legible.rootOf`, `Run.Legible.made` — what the roots and types of a run are made for
-/

namespace ModelGraph

/-- The type of a field once its slot is resolved, if it is one. -/
def FieldType.settled (type : FieldType) : FieldType :=
  match type with
  | .unresolved slot => Arena.resolvedType slot (Naming.sanitize slot.target)
  | type => type

theorem FieldType.settled_of_closed {type : FieldType} (h : type.isUnresolved = false) :
    type.settled = type := by
  cases type with
  | unresolved slot => cases h
  | scalar _ | enum _ | object _ | connection _ | list _ | nonNull _ => rfl

/-- The type of a kept field once all slots are resolved. -/
def KeptField.settledType (owner path : String) (kept : KeptField) : FieldType :=
  (outputType owner path kept).settled

/-- Whether a type is made for a field. -/
abbrev PlacedField.Makes : PlacedField → NamedType → Prop := MakesWith KeptField.settledType

/-- A field whose slot is resolved is one of the same kept field. -/
theorem KeptField.FieldOf.settled {owner path : String} {fields : List KeptField}
    {field : OutputField} (h : FieldOf outputType owner path fields field) :
    FieldOf settledType owner path fields { field with type := field.type.settled } := by
  obtain ⟨kept, hkept, houtline, htype, hargs⟩ := h
  exact ⟨kept, hkept, houtline, congrArg FieldType.settled htype, hargs⟩

/-- Resolving slots changes nothing of a field but its type. -/
theorem Arena.exists_fieldAt?_settleAll {arena : Arena} {slots : List ReferenceSlot}
    {place : FieldPlace} {field : OutputField}
    (h : (arena.settleAll slots).fieldAt? place = some field) :
    ∃ old, arena.fieldAt? place = some old ∧ field = { old with type := field.type } := by
  induction slots generalizing arena with
  | nil => exact ⟨field, h, rfl⟩
  | cons slot rest ih =>
    obtain ⟨middle, hmiddle, heq⟩ := ih h
    rw [fieldAt?_settle] at hmiddle
    split at hmiddle
    · obtain ⟨old, hold, rfl⟩ := Option.map_eq_some_iff.1 hmiddle
      exact ⟨old, hold, heq⟩
    · exact ⟨middle, hmiddle, heq⟩

namespace Run

variable {run : Run} {models : List ModelDecl}

section Legible

variable (h : run.Legible models)

include h

/-- A field of a legible run is that of the first phase, with its slot resolved. -/
theorem Legible.exists_fieldAt? {place : FieldPlace} {field : OutputField}
    (hfield : (run.layOut models).settled.fieldAt? place = some field) :
    ∃ old, (run.layOut models).fieldAt? place = some old ∧
      field = { old with type := old.type.settled } := by
  have hlaid := run.laidOut_of_siblingsApart models h.siblings h.owners h.objects
  have hwaiting := hlaid.waiting h.paths
  have hsettling := Arena.settling_settled hwaiting
  obtain ⟨old, hold, heq⟩ := Arena.exists_fieldAt?_settleAll hfield
  change (run.layOut models).fieldAt? place = some old at hold
  refine ⟨old, hold, heq.trans (congrArg (fun type => { old with type }) ?_)⟩
  by_cases hopen : old.type.isUnresolved = true
  -- A slot at a place is the one that waits there, and resolving gives it its type.
  · obtain ⟨slot, hslot, hplace⟩ := h.placed ⟨old, hold, hopen⟩
    obtain ⟨place', old', hplace', hold', htype'⟩ := hwaiting slot hslot
    obtain rfl : place = place' := Option.some.inj (hplace.symm.trans hplace')
    obtain rfl : old = old' := Option.some.inj (hold.symm.trans hold')
    obtain ⟨place', field', hplace', hfield', htype⟩ := hsettling.resolved slot hslot hslot
    obtain rfl : place = place' := Option.some.inj (hplace.symm.trans hplace')
    obtain rfl : field = field' := Option.some.inj (hfield.symm.trans hfield')
    rw [htype, htype']
    rfl
  · -- A field that is no slot is not at the place of one.
    have hfree : ∀ slot ∈ (run.layOut models).pending,
        (run.layOut models).placeOf slot ≠ some place := by
      intro slot hslot hplace
      obtain ⟨place', old', hplace', hold', htype'⟩ := hwaiting slot hslot
      obtain rfl : place = place' := Option.some.inj (hplace.symm.trans hplace')
      obtain rfl : old = old' := Option.some.inj (hold.symm.trans hold')
      rw [htype'] at hopen
      exact hopen rfl
    rw [hsettling.untouched place hfree, hold] at hfield
    rw [← Option.some.inj hfield, FieldType.settled_of_closed (Bool.eq_false_iff.2 hopen)]

/-- The fields of a type of a legible run are those of the first phase, with their slots resolved. -/
theorem Legible.exists_holder? {holder : Holder} {type : ObjectType}
    (htype : (run.layOut models).settled.holder? holder = some type) :
    ∃ old, (run.layOut models).holder? holder = some old ∧ type.name = old.name ∧
      type.outline = old.outline ∧ ∀ field ∈ type.fields.values, ∃ before ∈ old.fields.values,
        field = { before with type := before.type.settled } := by
  obtain ⟨old, hold, houtline⟩ := Arena.exists_outline_settleAll htype
  obtain ⟨old', hold', heq⟩ := Arena.exists_holder?_settleAll htype
  obtain rfl : old = old' := Option.some.inj (hold.symm.trans hold')
  change (run.layOut models).holder? holder = some old at hold
  refine ⟨old, hold, (congrArg ObjectType.name heq).trans rfl, houtline, fun field hfield => ?_⟩
  obtain ⟨key, hget⟩ := OrderedMap.mem_values_iff.1 hfield
  have hat : (run.layOut models).settled.fieldAt? ⟨holder, key⟩ = some field := by
    rw [Arena.fieldAt?, htype]
    exact hget
  obtain ⟨before, hbefore, heq⟩ := h.exists_fieldAt? hat
  rw [Arena.fieldAt?, hold, Option.bind_some] at hbefore
  exact ⟨before, OrderedMap.mem_values_iff.2 ⟨key, hbefore⟩, heq⟩

/-- A root of a legible run is laid out for the kept fields of its model. -/
theorem Legible.rootOf {owner : String} {root : ObjectType}
    (hroot : (run.layOut models).settled.roots.get? owner = some root) :
    ∃ kept ∈ run.kept models, kept.owner = owner ∧ RootOf KeptField.settledType kept root := by
  obtain ⟨old, hold, -, -, hfields⟩ := h.exists_holder?
    (show (run.layOut models).settled.holder? (.root owner) = some root from hroot)
  obtain ⟨kept, hkept, howner, hrootOf⟩ := (run.traced models).2 owner old hold
  refine ⟨kept, hkept, howner, fun field hfield => ?_⟩
  obtain ⟨before, hbefore, rfl⟩ := hfields field hfield
  rcases hrootOf before hbefore with ⟨source, rfl⟩ | hof
  · exact .inl ⟨source, rfl⟩
  · exact .inr hof.settled

/-- Every type of a legible run is made for one of its kept fields. -/
theorem Legible.made {name : String} {type : NamedType}
    (hget : (run.layOut models).settled.namedTypes.get? name = some type) :
    type.name = name ∧ ∃ placed ∈ run.placed models, placed.Makes type := by
  obtain ⟨htraced, -⟩ := run.traced models
  have hfind := (run.type?_graphOf models (run.layOut models).settled name).trans hget
  cases type with
  | enum enum =>
    rw [← TypeGraph.enum?_eq_some_iff, run.enum?_graphOf] at hfind
    obtain ⟨hname, placed, hplaced, hmakes⟩ := htraced.enums name enum hfind
    cases hmakes with
    | enum hmem => exact ⟨hname, _, hplaced, .enum hmem⟩
  | input input =>
    rw [← TypeGraph.input?_eq_some_iff, run.input?_graphOf] at hfind
    obtain ⟨hname, placed, hplaced, hmakes⟩ := htraced.inputs name input hfind
    cases hmakes with
    | input heq hargs => exact ⟨hname, _, hplaced, .input heq hargs⟩
  | connection connection =>
    rw [← TypeGraph.connection?_eq_some_iff, run.connection?_graphOf] at hfind
    obtain ⟨slot, hslot, hplural, rfl, hname⟩ := run.exists_slot_of_connection models hfind
    rw [← (run.holds models).pending] at hslot
    obtain ⟨placed, hplaced, hreference⟩ := htraced.pending slot hslot
    exact ⟨hname, placed, hplaced, .connection hreference hplural⟩
  | object object =>
    have hobject : (run.layOut models).settled.holder? (.object name) = some object :=
      Arena.get?_objects_of_namedTypes hget
    obtain ⟨old, hold, hname, houtline, hfields⟩ := h.exists_holder? hobject
    obtain ⟨hold, placed, hplaced, hmakes⟩ := htraced.objects name old hold
    refine ⟨hname.trans hold, placed, hplaced, ?_⟩
    cases hmakes with
    | object hobject hshape hkept =>
      refine .object (hname.trans hobject) (houtline.trans hshape) fun field hfield => ?_
      obtain ⟨before, hbefore, rfl⟩ := hfields field hfield
      exact (hkept before hbefore).settled

end Legible

end Run

end ModelGraph
