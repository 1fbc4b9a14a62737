import ModelGraph.Proofs.Graph.Furnished
import ModelGraph.Proofs.Graph.Made
import ModelGraph.Proofs.Graph.Origin

/-!
# What resolving slots changes

Resolving a slot follows its path to a field and gives this field another type, without a look at
the type that the field had. So a field ends with the type of the last slot whose path leads to it
when it is the slot's turn, and with its own type when there is none. Nothing else of a field
changes. In a legible run the path of a slot leads to the field that the slot stands for, so all
other fields stay as they are.

Outside of legible runs a path can lead to the field of another declaration. That field then has the
type of the target, and still the source and the arguments of its own declaration.

## Main definitions

- `Arena.slotsAt` — the slots whose paths lead to a place when it is their turn
- `FieldType.resolvedBy` — the type of a field after slots are resolved at its place

## Main statements

- `Arena.fieldAt?_settleAll` — what resolving slots makes of a field
- `Run.retyped_of_synthesize` — the fields of a graph are those of the first phase, retyped
-/

namespace ModelGraph

/-- The type of a field after slots are resolved at its place, one after another: the last one gives
the type. -/
def FieldType.resolvedBy (type : FieldType) (slots : List ReferenceSlot) : FieldType :=
  (slots.getLast?.map fun slot => Arena.resolvedType slot (Naming.sanitize slot.target)).getD type

@[simp] theorem FieldType.resolvedBy_nil (type : FieldType) : type.resolvedBy [] = type := rfl

theorem FieldType.resolvedBy_cons (type : FieldType) (slot : ReferenceSlot)
    (rest : List ReferenceSlot) : type.resolvedBy (slot :: rest) =
      (Arena.resolvedType slot (Naming.sanitize slot.target)).resolvedBy rest := by
  rw [resolvedBy, resolvedBy, List.getLast?_cons]
  cases rest.getLast? <;> rfl

namespace Arena

/-- The slots whose paths lead to a place when it is their turn. Earlier ones are resolved then, so
paths can lead through the types of their targets. -/
def slotsAt (place : FieldPlace) : Arena → List ReferenceSlot → List ReferenceSlot
  | _, [] => []
  | arena, slot :: rest =>
    let later := slotsAt place (arena.settle slot (Naming.sanitize slot.target)) rest
    if arena.placeOf slot = some place then slot :: later else later

/-- Resolving slots gives a field the type of the last slot that leads to it, and changes nothing
else. -/
theorem fieldAt?_settleAll (arena : Arena) (slots : List ReferenceSlot) (place : FieldPlace) :
    (arena.settleAll slots).fieldAt? place = (arena.fieldAt? place).map fun field =>
      { field with type := field.type.resolvedBy (slotsAt place arena slots) } := by
  induction slots generalizing arena with
  | nil =>
    change arena.fieldAt? place = _
    rw [slotsAt]
    simp only [FieldType.resolvedBy_nil, Option.map_id']
  | cons slot rest ih =>
    change ((arena.settle slot (Naming.sanitize slot.target)).settleAll rest).fieldAt? place = _
    rw [ih, fieldAt?_settle, slotsAt]
    split
    · rw [Option.map_map]
      refine congrArg (fun f => (arena.fieldAt? place).map f) (funext fun field => ?_)
      rw [Function.comp_apply, FieldType.resolvedBy_cons]
    · rfl

end Arena

namespace Run

variable {run : Run} {models : List ModelDecl}

/-- A slot has no arguments. -/
theorem Describes.args_of_slot {last : Arena} {holder : Holder} {field : OutputField}
    (h : run.Describes models last holder field) {slot : ReferenceSlot}
    (htype : field.type = .unresolved slot) : field.args = [] := by
  cases h with
  | identity => cases htype
  | declared _ _ _ hyields =>
    obtain ⟨owner, typeName, path, type, start, -, -, -, hargs, -⟩ := hyields.made
    rw [hargs, htype]
    rfl

/-- In a legible run an open field is the slot that waits at its place. -/
theorem Legible.exists_slot (h : run.Legible models) {place : FieldPlace} {field : OutputField}
    (hfield : (run.layOut models).fieldAt? place = some field)
    (hopen : field.type.isUnresolved = true) :
    ∃ slot ∈ (run.layOut models).pending, field.type = .unresolved slot := by
  have hlaid := run.laidOut_of_siblingsApart models h.siblings h.owners h.objects
  obtain ⟨slot, hslot, hplace⟩ := h.placed ⟨field, hfield, hopen⟩
  obtain ⟨place', field', hplace', hfield', htype⟩ := hlaid.waiting h.paths slot hslot
  obtain rfl : place = place' := Option.some.inj (hplace.symm.trans hplace')
  obtain rfl : field = field' := Option.some.inj (hfield.symm.trans hfield')
  exact ⟨slot, hslot, htype⟩

/-- Every field of the graph of a run is made for one declaration, and has all of it but the type,
which is that of the last slot whose path leads to the field, if there is one. In a legible run a
field that is no slot stays as it is, and a slot, which has no arguments, gets the type of its own
target. -/
theorem retyped_of_synthesize {graph : TypeGraph} (h : run.synthesize models = .ok graph) :
    ∀ type ∈ graph.objects, ∀ key field, type.fields.get? key = some field →
      ∃ holder old, holder.name = type.name ∧
        (run.layOut models).fieldAt? ⟨holder, key⟩ = some old ∧
        run.Describes models (run.layOut models) holder old ∧
        field = { old with
          type := old.type.resolvedBy (Arena.slotsAt ⟨holder, key⟩
            { run.layOut models with pending := [] } (run.layOut models).pending) } ∧
        (run.Legible models →
          (old.type.isUnresolved = false → field = old) ∧
          (old.type.isUnresolved = true → ∃ slot ∈ (run.layOut models).pending,
            old.type = .unresolved slot ∧ field.args = [] ∧
              field = { old with
                type := Arena.resolvedType slot (Naming.sanitize slot.target) })) := by
  obtain ⟨-, arena, hresolve, -, -, rfl⟩ := synthesize_eq_ok_iff.1 h
  obtain ⟨-, rfl⟩ := Arena.resolve_eq_ok_iff.1 hresolve
  intro type htype key field hget
  obtain ⟨holder, hholder⟩ := run.exists_holder_of_mem_objects models htype
  have hfield : (run.layOut models).settled.fieldAt? ⟨holder, key⟩ = some field :=
    Option.bind_eq_some_iff.2 ⟨type, hholder, hget⟩
  obtain ⟨old, hold, heq⟩ := Option.map_eq_some_iff.1
    ((Arena.fieldAt?_settleAll _ _ ⟨holder, key⟩).symm.trans hfield)
  change (run.layOut models).fieldAt? ⟨holder, key⟩ = some old at hold
  have hdescribes := run.describes_of_layOut models hold
  refine ⟨holder, old, (furnished_settled hholder).1.symm, hold, hdescribes, heq.symm,
    fun hlegible => ?_⟩
  obtain ⟨old', hold', hsettled⟩ := hlegible.exists_fieldAt? hfield
  obtain rfl : old = old' := Option.some.inj (hold.symm.trans hold')
  refine ⟨fun hclosed => ?_, fun hopen => ?_⟩
  · rw [hsettled, FieldType.settled_of_closed hclosed]
  · obtain ⟨slot, hslot, hunresolved⟩ := hlegible.exists_slot hold hopen
    refine ⟨slot, hslot, hunresolved, ?_, ?_⟩
    · rw [hsettled]
      exact hdescribes.args_of_slot hunresolved
    · rw [hsettled, hunresolved]
      rfl

end Run

/-- A field with arguments in the books of an author is no slot, and is as the first phase leaves
it. -/
theorem Run.kept_author_city : ∃ graph,
    (Run.mk {} ⟨0⟩ 0).synthesize [.author, .city] = .ok graph ∧
      ∃ type ∈ graph.objects, ∃ field, type.fields.get? "kind" = some field ∧ field.args ≠ [] ∧
        ∃ holder : Holder, holder.name = type.name ∧
          ((Run.mk {} ⟨0⟩ 0).layOut [.author, .city]).fieldAt? ⟨holder, "kind"⟩ = some field := by
  let result := (Run.mk {} ⟨0⟩ 0).synthesize [.author, .city]
  obtain ⟨graph, hok⟩ : ∃ graph, result = .ok graph := exists_eq_ok (by decide +kernel)
  have hkind : result.toOption.any (fun graph => graph.objects.any fun type =>
      (type.fields.get? "kind").any fun field => !field.args.isEmpty) = true := by decide +kernel
  rw [hok] at hkind
  obtain ⟨type, htype, hkind⟩ := List.any_eq_true.1 hkind
  cases hfield : type.fields.get? "kind" with
  | none =>
    rw [hfield] at hkind
    cases hkind
  | some field =>
    rw [hfield] at hkind
    have hargs : field.args ≠ [] := by simpa using hkind
    obtain ⟨holder, old, hname, hold, -, -, hlegible⟩ :=
      retyped_of_synthesize hok type htype "kind" field hfield
    obtain ⟨hclosed, hopen⟩ := hlegible (legible_of_wellNamed (by decide +kernel)
      (by decide +kernel))
    refine ⟨graph, hok, type, htype, field, hfield, hargs, holder, hname, ?_⟩
    cases hcase : old.type.isUnresolved with
    | false => rw [hclosed hcase, hold]
    | true =>
      obtain ⟨slot, -, -, hnone, -⟩ := hopen hcase
      exact absurd hnone hargs

/-- A model with a reference and a scalar whose names differ in the input only. -/
def ModelDecl.clashing : ModelDecl where
  key := "nodes"
  name := "node"
  fields := [.reference "x-y" "node", .scalar "x_y" .string]

/-- The path of a reference leads to the scalar that has taken its name. The scalar gets the type of
the target, and keeps its source and the arguments of strings. -/
theorem Run.retyped_clashing :
    let run := Run.mk {} ⟨0⟩ 0
    let before := (run.layOut [.clashing]).fieldAt? ⟨.root "node", "x_y"⟩
    let after := (run.synthesize [.clashing]).toOption.bind fun graph =>
      (graph.model? "node").bind fun root => root.fields.get? "x_y"
    before.map (fun field => (field.type, field.source, field.args)) =
        some (.scalar .string, "x_y", Arguments.comparison "String") ∧
      after.map (fun field => (field.type, field.source, field.args)) =
        some (.object "node", "x_y", Arguments.comparison "String") := by
  decide +kernel

end ModelGraph
