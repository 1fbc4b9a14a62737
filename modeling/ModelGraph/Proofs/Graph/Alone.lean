import ModelGraph.Proofs.Graph.Reach
import ModelGraph.Proofs.Graph.Tables
import ModelGraph.Proofs.Graph.Trace

/-!
# Models on their own

What a model adds to a run does not depend on the other models, so it can be read off the arena of
the model on its own, with every slot resolved to the output name of its target. The types of a
model mention each other, the output names of targets, and the names that every schema knows, and
nothing else.

## Main definitions

- `Run.alone` — the arena of a model on its own
- `Run.typeNames` — the names of the types that a model makes below its root
- `Run.Unambiguous` — a model that makes no type name twice
- `Run.vocabulary` — the names that the fields of a model may mention

## Main statements

- `Run.speaks_alone` — the types of a model use its vocabulary
- `Run.scope_of_reaches` — the root of a model reaches names in its scope
- `Run.Unambiguous.connection` — the connection of a plural slot
- `Run.Unambiguous.exists_slot_field` — when no slot is left, every slot is a field below the root
-/

namespace ModelGraph

namespace ModelDecl

variable (settings : SynthSettings) (model : ModelDecl)

/-- The fields that a model keeps on its own. -/
def kept : KeptModel := ((model.keep settings).run {}).1

/-- The types of the embedded models that a model meets on its own. -/
def embeddedTypes : List String :=
  ((model.keep settings).run {}).2.embedded.map Naming.embeddedType

/-- The output name of a model. -/
def rootName (model : ModelDecl) : String := Naming.sanitize model.name

end ModelDecl

namespace Run

variable (run : Run) (model : ModelDecl)

/-- The arena of a model on its own, with every slot resolved. -/
def alone : Arena := (run.layOut [model]).settled

/-- The names of the types that a model makes on its own, but for its root. -/
def typeNames : List String :=
  (model.kept run.settings).objectNames ++ (model.kept run.settings).enumNames
    ++ (model.kept run.settings).connectionNames ++ (run.layOut [model]).inputs.keys

/-- A model that makes no type name twice and keeps its siblings apart. -/
structure Unambiguous : Prop where
  siblings : (model.kept run.settings).SiblingsApart
  names : (model.rootName :: run.typeNames model).Nodup

/-- The names that the fields of a model may mention. -/
def vocabulary : Vocabulary where
  objects name := name ∈ (model.kept run.settings).objectNames ∨
    ∃ slot ∈ (model.kept run.settings).slots, name = Naming.sanitize slot.target
  enums name := name ∈ (model.kept run.settings).enumNames
  connections name := name ∈ (model.kept run.settings).connectionNames

theorem layOut_singleton :
    run.layOut [model] = ((Arena.addModel run.settings run.identity model).run {}).2 := rfl

/-- The kept fields of a model mention what the model adds. -/
theorem keeps_kept : KeptField.Keeps {} (model.kept run.settings).fields
    ((model.keep run.settings).run {}).2 :=
  KeptField.keeps_keepAll model.rootName model.ownFields {}

theorem usesAll_kept : KeptField.UsesAll
    ⟨fun name => name ∈ (model.kept run.settings).objectNames,
      fun name => name ∈ (model.kept run.settings).enumNames, fun _ => False⟩
    (model.kept run.settings).fields :=
  KeptField.UsesAll.mono _ (keeps_kept run model).uses
    ⟨fun _ h => h.resolve_right fun ⟨_, hmem, _⟩ => absurd hmem List.not_mem_nil,
      fun _ h => h, fun _ h => h⟩

theorem usesAll_vocabulary :
    KeptField.UsesAll (run.vocabulary model) (model.kept run.settings).fields :=
  KeptField.UsesAll.mono _ (usesAll_kept run model) ⟨fun _ h => .inl h, fun _ h => h, fun _ h => h.elim⟩

/-- The first phase leaves tidy types and fields in the vocabulary of the model. -/
theorem tidy_layOut : (run.layOut [model]).Tidy (run.vocabulary model) ∧
    (run.layOut [model]).Speaks (run.vocabulary model) := by
  let kept := model.kept run.settings
  let built := (KeptField.buildAll kept.owner "" kept.fields ∅).run {}
  obtain ⟨htidy, hfields, -⟩ := KeptField.tidy_buildAll kept.owner "" kept.fields
    (usesAll_vocabulary run model) ∅ {} (Arena.tidy_empty _)
    fun _ hfield => absurd hfield List.not_mem_nil
  have hrun : run.layOut [model] =
      { built.2.withSeen ((model.keep run.settings).run {}).2 with
        roots := OrderedMap.insert ∅ kept.owner (Arena.rootOf run.settings run.identity model built.1)
        rootModels := OrderedMap.insert ∅ kept.owner model.name
        connections := ∅ } := by
    rw [layOut_singleton, Arena.run_addModel, Arena.run_declared]
    rfl
  rw [hrun]
  refine ⟨⟨htidy.objects, htidy.enums, htidy.inputs, htidy.mirrored⟩, fun place field hfield => ?_⟩
  obtain ⟨holder, name⟩ := place
  rw [Arena.fieldAt?] at hfield
  obtain ⟨type, htype, hfield⟩ := Option.bind_eq_some_iff.1 hfield
  cases holder with
  | object object =>
    exact (htidy.objects object type htype).2 field (OrderedMap.mem_values_iff.2 ⟨name, hfield⟩)
  | root owner =>
    change OrderedMap.get? (OrderedMap.insert ∅ _ _) owner = some type at htype
    rw [OrderedMap.get?_insert] at htype
    split at htype
    · cases htype
      rcases Arena.get?_rootOf.1 hfield with hdeclared | ⟨-, -, rfl⟩
      · exact hfields field (OrderedMap.mem_values_iff.2 ⟨name, hdeclared⟩)
      · exact ⟨trivial, fun _ harg => absurd harg List.not_mem_nil⟩
    · cases htype

theorem innermost_resolvedType (slot : ReferenceSlot) (node : String) :
    (Arena.resolvedType slot node).innermost =
      match slot.cardinality with
      | .single => .object node
      | .plural => .connection (Naming.connectionType slot.owner slot.path) := by
  rw [Arena.resolvedType]
  cases slot.cardinality with
  | single => cases slot.nonNull <;> rfl
  | plural => rfl

/-- Resolved slots have types in the vocabulary. -/
theorem uses_resolvedType {slot : ReferenceSlot}
    (hslot : slot ∈ (model.kept run.settings).slots) :
    (Arena.resolvedType slot (Naming.sanitize slot.target)).Uses (run.vocabulary model) := by
  rw [Arena.resolvedType]
  cases hcardinality : slot.cardinality with
  | single =>
    have hobject : (run.vocabulary model).objects (Naming.sanitize slot.target) :=
      .inr ⟨slot, hslot, rfl⟩
    cases slot.nonNull <;> exact hobject
  | plural =>
    exact List.mem_map.2 ⟨slot, List.mem_filter.2 ⟨hslot, decide_eq_true hcardinality⟩, rfl⟩

/-! ### The connections of a run -/

/-- A connection of a run is that of a plural slot. -/
theorem exists_slot_of_connection (models : List ModelDecl) {name : String}
    {connection : ConnectionType}
    (h : (run.layOut models).settled.connections.get? name = some connection) :
    ∃ slot ∈ (run.kept models).flatMap KeptModel.slots, slot.cardinality = .plural ∧
      connection = Arena.connectionOf slot (Naming.sanitize slot.target) ∧
        connection.name = name := by
  rw [← (run.holds models).pending]
  refine (Arena.exists_of_connections_settleAll h).resolve_left fun hbefore => ?_
  change (run.layOut models).connections.get? name = _ at hbefore
  rw [(run.holds models).connections] at hbefore
  cases hbefore

theorem mem_connectionNames_of_settled (models : List ModelDecl) {name : String}
    (h : name ∈ (run.layOut models).settled.connections.keys) :
    name ∈ (run.kept models).flatMap KeptModel.connectionNames := by
  obtain ⟨connection, hget⟩ := OrderedMap.mem_keys_iff.1 h
  obtain ⟨slot, hslot, hplural, rfl, rfl⟩ := run.exists_slot_of_connection models hget
  rw [← map_connectionType_flatMap_slots]
  exact List.mem_map.2 ⟨slot, List.mem_filter.2 ⟨hslot, decide_eq_true hplural⟩, rfl⟩

/-! ### The arena of a model -/

theorem kept_singleton : run.kept [model] = [model.kept run.settings] := rfl

theorem holds_layOut_singleton : (run.layOut [model]).Holds [model.kept run.settings] :=
  run.holds [model]

theorem pending_layOut_singleton :
    (run.layOut [model]).pending = (model.kept run.settings).slots := by
  rw [(holds_layOut_singleton run model).pending, List.flatMap_singleton]

theorem mem_objects_layOut_singleton {name : String} :
    name ∈ (run.layOut [model]).objects.keys ↔ name ∈ (model.kept run.settings).objectNames := by
  rw [(holds_layOut_singleton run model).mem_objects, List.flatMap_singleton]

/-- Resolving slots adds no names but those of connections. -/
theorem frame_alone :
    (∀ name, name ∈ (run.alone model).roots.keys ↔ name = model.rootName) ∧
      (∀ name, name ∈ (run.alone model).objects.keys ↔
        name ∈ (model.kept run.settings).objectNames) ∧
      (∀ name, name ∈ (run.alone model).enums.keys ↔ name ∈ (model.kept run.settings).enumNames) ∧
      (run.alone model).inputs = (run.layOut [model]).inputs := by
  obtain ⟨hroots, hobjects, henums, hinputs⟩ := Arena.settled_frame (run.layOut [model])
  refine ⟨fun name => ?_, fun name => ?_, fun name => ?_, hinputs⟩
  · rw [alone, hroots, (holds_layOut_singleton run model).roots]
    exact List.mem_singleton
  · rw [alone, hobjects, mem_objects_layOut_singleton]
  · rw [alone, henums, (holds_layOut_singleton run model).mem_enums, List.flatMap_singleton]

/-- The fields of a model on its own use its vocabulary. -/
theorem speaks_alone : (run.alone model).Speaks (run.vocabulary model) := by
  refine Arena.Speaks.settleAll (tidy_layOut run model).2 fun slot hslot => ?_
  rw [pending_layOut_singleton] at hslot
  exact uses_resolvedType run model hslot

section Alone

variable {run model}

theorem mem_connectionNames_alone {name : String}
    (hmem : name ∈ (run.alone model).connections.keys) :
    name ∈ (model.kept run.settings).connectionNames := by
  have hnames := mem_connectionNames_of_settled run [model] hmem
  rwa [kept_singleton, List.flatMap_singleton] at hnames

theorem mem_typeNames {name : String} :
    name ∈ run.typeNames model ↔ name ∈ (model.kept run.settings).objectNames ∨
      name ∈ (model.kept run.settings).enumNames ∨
      name ∈ (model.kept run.settings).connectionNames ∨ name ∈ (run.layOut [model]).inputs.keys := by
  rw [typeNames, List.mem_append, List.mem_append, List.mem_append, or_assoc, or_assoc]

theorem get?_connection {name : String} {type : ConnectionType}
    (hget : (run.alone model).connections.get? name = some type) :
    (run.alone model).namedTypes.get? name = some (.connection type) := by
  rw [Arena.get?_namedTypes, hget]
  rfl

/-- A type of a model stands under its own name, and the model makes that name. -/
theorem name_of_get? {name : String} {type : NamedType}
    (hget : (run.alone model).namedTypes.get? name = some type) :
    type.name = name ∧ name ∈ run.typeNames model := by
  obtain ⟨-, hobjects, henums, hinputs⟩ := frame_alone run model
  have htidy := (tidy_layOut run model).1
  rw [Arena.get?_namedTypes] at hget
  rw [mem_typeNames, ← hobjects, ← henums, ← hinputs]
  rcases Option.or_eq_some_iff.1 hget with hget | ⟨-, hget⟩
  · obtain ⟨connection, hfound, rfl⟩ := Option.map_eq_some_iff.1 hget
    obtain ⟨-, -, -, -, hname⟩ := exists_slot_of_connection run [model] hfound
    exact ⟨hname,
      .inr (.inr (.inl (mem_connectionNames_alone (OrderedMap.mem_keys_of_get? hfound))))⟩
  rcases Option.or_eq_some_iff.1 hget with hget | ⟨-, hget⟩
  · obtain ⟨input, hfound, rfl⟩ := Option.map_eq_some_iff.1 hget
    refine ⟨?_, .inr (.inr (.inr (OrderedMap.mem_keys_of_get? hfound)))⟩
    rw [hinputs] at hfound
    exact (htidy.inputs name input hfound).1
  rcases Option.or_eq_some_iff.1 hget with hget | ⟨-, hget⟩
  · obtain ⟨enum, hfound, rfl⟩ := Option.map_eq_some_iff.1 hget
    refine ⟨?_, .inr (.inl (OrderedMap.mem_keys_of_get? hfound))⟩
    rw [alone, (Arena.settled_frame _).2.2.1] at hfound
    exact (htidy.enums name enum hfound).1
  · obtain ⟨object, hfound, rfl⟩ := Option.map_eq_some_iff.1 hget
    refine ⟨?_, .inl (OrderedMap.mem_keys_of_get? hfound)⟩
    obtain ⟨old, hold, heq⟩ :=
      Arena.exists_holder?_settleAll (show (run.alone model).holder? (.object name) = _ from hfound)
    exact (congrArg ObjectType.name heq).trans (htidy.objects name old hold).1

theorem eq_rootName {name : String} {root : ObjectType}
    (hroot : (run.alone model).roots.get? name = some root) : name = model.rootName :=
  ((frame_alone run model).1 name).1 (OrderedMap.mem_keys_of_get? hroot)

end Alone

/-- A model has one root, with its name and the mark of the run. -/
theorem exists_root : ∃ root, (run.alone model).roots.get? model.rootName = some root ∧
    root.name = model.rootName ∧ root.identity = some run.identity := by
  obtain ⟨root, hroot⟩ : ∃ root, (run.alone model).roots.get? model.rootName = some root := by
    rw [← OrderedMap.mem_keys_iff, (frame_alone run model).1]
  obtain ⟨old, hold, heq⟩ := Arena.exists_holder?_settleAll
    (show (run.alone model).holder? (.root model.rootName) = _ from hroot)
  change OrderedMap.get? (run.layOut [model]).roots _ = _ at hold
  rw [layOut_singleton, Arena.run_addModel] at hold
  change OrderedMap.get? (OrderedMap.insert ∅ model.rootName _) _ = _ at hold
  rw [OrderedMap.get?_insert_self, Option.some.injEq] at hold
  rw [← hold] at heq
  exact ⟨root, hroot, congrArg ObjectType.name heq, congrArg ObjectType.identity heq⟩

/-! ### Models that make no type name twice -/

section Unambiguous

variable {run : Run} {model : ModelDecl} (h : run.Unambiguous model)

include h

theorem Unambiguous.laidOut : (run.layOut [model]).LaidOut [model.kept run.settings] := by
  have hnames := (List.nodup_cons.1 h.names).2
  rw [typeNames, List.append_assoc, List.append_assoc] at hnames
  exact Arena.LaidOut.empty.addModel model h.siblings List.not_mem_nil (List.nodup_append.1 hnames).1

/-- Every plural slot has its connection. -/
theorem Unambiguous.connection {slot : ReferenceSlot}
    (hslot : slot ∈ (model.kept run.settings).slots) (hplural : slot.cardinality = .plural) :
    (run.alone model).connections.get? (Naming.connectionType slot.owner slot.path) =
      some (Arena.connectionOf slot (Naming.sanitize slot.target)) := by
  have hnames := (List.nodup_cons.1 h.names).2
  obtain ⟨hnames, -, -⟩ := List.nodup_append.1 hnames
  obtain ⟨-, hnames, -⟩ := List.nodup_append.1 hnames
  refine Arena.get?_connections_settleAll_of_nodup ?_ (pending_layOut_singleton run model ▸ hslot)
    hplural ?_
  · rw [pending_layOut_singleton]
    exact hnames
  · change OrderedMap.get? (run.layOut [model]).connections _ = none
    rw [(holds_layOut_singleton run model).connections]
    rfl

/-! ### The types of a model -/

/-- The tables of a model on its own have no name in common. -/
theorem Unambiguous.tables (name : String) :
    (name ∈ (run.alone model).objects.keys → name ∉ (run.alone model).enums.keys ∧
      name ∉ (run.alone model).inputs.keys ∧ name ∉ (run.alone model).connections.keys) ∧
    (name ∈ (run.alone model).enums.keys →
      name ∉ (run.alone model).inputs.keys ∧ name ∉ (run.alone model).connections.keys) ∧
    (name ∈ (run.alone model).inputs.keys → name ∉ (run.alone model).connections.keys) := by
  obtain ⟨-, hobjects, henums, hinputs⟩ := frame_alone run model
  obtain ⟨hthree, -, hlast⟩ := List.nodup_append.1 (List.nodup_cons.1 h.names).2
  obtain ⟨htwo, -, hconnections⟩ := List.nodup_append.1 hthree
  obtain ⟨-, -, hfirst⟩ := List.nodup_append.1 htwo
  rw [hobjects, henums, hinputs]
  refine ⟨fun hmem => ⟨?_, ?_, ?_⟩, fun hmem => ⟨?_, ?_⟩, fun hmem => ?_⟩
  · exact fun hother => hfirst name hmem name hother rfl
  · exact fun hother => hlast name (by simp [hmem]) name hother rfl
  · exact fun hother =>
      hconnections name (by simp [hmem]) name (mem_connectionNames_alone hother) rfl
  · exact fun hother => hlast name (by simp [hmem]) name hother rfl
  · exact fun hother =>
      hconnections name (by simp [hmem]) name (mem_connectionNames_alone hother) rfl
  · exact fun hother => hlast name (by simp [mem_connectionNames_alone hother]) name hmem rfl

theorem Unambiguous.get?_object {name : String} {type : ObjectType} :
    (run.alone model).namedTypes.get? name = some (.object type) ↔
      (run.alone model).objects.get? name = some type := by
  refine ⟨Arena.get?_objects_of_namedTypes, fun hget => ?_⟩
  obtain ⟨henum, hinput, hconnection⟩ := (h.tables name).1 (OrderedMap.mem_keys_of_get? hget)
  rw [Arena.get?_namedTypes, OrderedMap.get?_eq_none_iff.2 henum,
    OrderedMap.get?_eq_none_iff.2 hinput, OrderedMap.get?_eq_none_iff.2 hconnection, hget]
  rfl

theorem Unambiguous.get?_enum {name : String} {type : EnumType}
    (hget : (run.alone model).enums.get? name = some type) :
    (run.alone model).namedTypes.get? name = some (.enum type) := by
  obtain ⟨hinput, hconnection⟩ := (h.tables name).2.1 (OrderedMap.mem_keys_of_get? hget)
  rw [Arena.get?_namedTypes, OrderedMap.get?_eq_none_iff.2 hinput,
    OrderedMap.get?_eq_none_iff.2 hconnection, hget]
  rfl

theorem Unambiguous.get?_input {name : String} {type : InputType}
    (hget : (run.alone model).inputs.get? name = some type) :
    (run.alone model).namedTypes.get? name = some (.input type) := by
  have hconnection := (h.tables name).2.2 (OrderedMap.mem_keys_of_get? hget)
  rw [Arena.get?_namedTypes, OrderedMap.get?_eq_none_iff.2 hconnection, hget]
  rfl

end Unambiguous

/-! ### What a model reaches -/

/-- The names that the types of a model mention: its own, the output names of targets, and those that
every schema knows. -/
def Scope (name : String) : Prop :=
  name ∈ run.typeNames model ∨
    (∃ slot ∈ (model.kept run.settings).slots, name = Naming.sanitize slot.target) ∨
    Arguments.isBuiltIn name = true

section Scope

variable {run : Run} {model : ModelDecl}

theorem scope_of_arg {type : ArgType}
    (huses : type.Uses (run.vocabulary model) (run.alone model).inputs) :
    run.Scope model type.innermost := by
  rcases huses with hbuiltIn | henum | hinput
  · exact .inr (.inr hbuiltIn)
  · exact .inl (mem_typeNames.2 (.inr (.inl henum)))
  · rw [(frame_alone run model).2.2.2] at hinput
    exact .inl (mem_typeNames.2 (.inr (.inr (.inr hinput))))

theorem scope_of_field {field : OutputField}
    (huses : field.Uses (run.vocabulary model) (run.alone model).inputs) :
    ∀ name ∈ field.mentions, run.Scope model name := by
  intro name hname
  rcases List.mem_append.1 hname with hname | hname
  · have htype := huses.type
    rw [FieldType.Uses] at htype
    split at hname
    · next enum hcore =>
      obtain rfl := List.mem_singleton.1 hname
      rw [hcore] at htype
      exact .inl (mem_typeNames.2 (.inr (.inl htype)))
    · next object hcore =>
      obtain rfl := List.mem_singleton.1 hname
      rw [hcore] at htype
      rcases htype with hown | htarget
      · exact .inl (mem_typeNames.2 (.inl hown))
      · exact .inr (.inl htarget)
    · next connection hcore =>
      obtain rfl := List.mem_singleton.1 hname
      rw [hcore] at htype
      exact .inl (mem_typeNames.2 (.inr (.inr (.inl htype))))
    · cases hname
  · obtain ⟨arg, harg, rfl⟩ := List.mem_map.1 hname
    exact scope_of_arg (huses.args arg harg)

theorem scope_of_holder {holder : Holder} {type : ObjectType}
    (hholder : (run.alone model).holder? holder = some type) :
    ∀ name ∈ type.mentions, run.Scope model name := by
  intro name hname
  obtain ⟨field, hfield, hname⟩ := List.mem_flatMap.1 hname
  obtain ⟨key, hget⟩ := OrderedMap.mem_values_iff.1 hfield
  refine scope_of_field (speaks_alone run model ⟨holder, key⟩ field ?_) name hname
  rw [Arena.fieldAt?, hholder, Option.bind_some]
  exact hget

/-- The types of a model mention names in its scope. -/
theorem scope_of_type {name : String} {type : NamedType}
    (hget : (run.alone model).namedTypes.get? name = some type) :
    ∀ next ∈ type.mentions, run.Scope model next := by
  cases type with
  | object object =>
    exact scope_of_holder
      (show (run.alone model).holder? (.object name) = _ from Arena.get?_objects_of_namedTypes hget)
  | input input =>
    have hinput : (run.layOut [model]).inputs.get? name = some input := by
      rw [← (frame_alone run model).2.2.2]
      rw [Arena.get?_namedTypes] at hget
      have hall := by simpa using hget
      exact hall.2
    intro next hnext
    obtain ⟨arg, harg, rfl⟩ := List.mem_map.1 hnext
    have huses := ((tidy_layOut run model).1.inputs name input hinput).2 arg harg
    rw [← (frame_alone run model).2.2.2] at huses
    exact scope_of_arg huses
  | enum _ | connection _ => exact fun _ hnext => absurd hnext List.not_mem_nil

/-- What the root of a model reaches is in its scope. -/
theorem scope_of_reaches {root : ObjectType}
    (hroot : (run.alone model).roots.get? model.rootName = some root) {name : String}
    (hreach : Reaches (run.alone model).namedTypes.get? root.mentions name) :
    run.Scope model name :=
  hreach.closed
    (scope_of_holder (show (run.alone model).holder? (.root model.rootName) = _ from hroot))
    fun _ _ _ hget => scope_of_type hget

variable (h : run.Unambiguous model)

include h

/-- Holders that are found from the root are reached by it. -/
theorem Unambiguous.reaches_of_under {root : ObjectType}
    (hroot : (run.alone model).roots.get? model.rootName = some root) {holder : Holder}
    (hunder : (run.alone model).Under model.rootName holder) :
    holder = .root model.rootName ∨ ∃ name, holder = .object name ∧
      Reaches (run.alone model).namedTypes.get? root.mentions name := by
  induction hunder with
  | root => exact .inl rfl
  | @object place field object _ hfield hobject ih =>
    have hmention : object ∈ field.mentions := by
      rw [FieldType.objectName?] at hobject
      split at hobject
      · next hcore =>
        rw [← Option.some.inj hobject, OutputField.mentions, hcore]
        exact List.mem_cons_self ..
      · cases hobject
    obtain ⟨holder, name⟩ := place
    rw [Arena.fieldAt?] at hfield
    obtain ⟨type, htype, hget⟩ := Option.bind_eq_some_iff.1 hfield
    have hmentions : object ∈ type.mentions :=
      List.mem_flatMap.2 ⟨field, OrderedMap.mem_values_iff.2 ⟨name, hget⟩, hmention⟩
    refine .inr ⟨object, rfl, ?_⟩
    rcases ih with heq | ⟨parent, heq, hparent⟩
    · obtain rfl : holder = .root model.rootName := heq
      obtain rfl : root = type := Option.some.inj (hroot.symm.trans htype)
      exact .start hmentions
    · obtain rfl : holder = .object parent := heq
      exact .step hparent (h.get?_object.2 htype) hmentions

/-- When no slot is left in the end, every slot is a field of the root or of an object type that the
root reaches. -/
theorem Unambiguous.exists_slot_field {root : ObjectType}
    (hroot : (run.alone model).roots.get? model.rootName = some root)
    (hclosed : ∀ place, ¬ (run.alone model).IsOpen place) {slot : ReferenceSlot}
    (hslot : slot ∈ (model.kept run.settings).slots) :
    ∃ type, (type = root ∨ ∃ name, Reaches (run.alone model).namedTypes.get? root.mentions name ∧
        (run.alone model).namedTypes.get? name = some (.object type)) ∧
      ∃ field ∈ type.fields.values,
        field.type = Arena.resolvedType slot (Naming.sanitize slot.target) := by
  let kept := model.kept run.settings
  let places := KeptField.slotPlacesAll (.root kept.owner) kept.fields
  obtain ⟨first, hfirst, hstands⟩ := h.laidOut.stands kept (List.mem_singleton_self _)
  have hdone : ∀ name field, first.fields.get? name = some field →
      (run.layOut [model]).fieldAt? ⟨.root kept.owner, name⟩ = some field := by
    intro name field hget
    rw [Arena.fieldAt?, Arena.holder?, hfirst, Option.bind_some]
    exact hget
  have hopen : ∀ place ∈ places, (run.layOut [model]).IsOpen place :=
    hstands.isOpen "" (.root kept.owner) kept.fields first.fields hdone
  have hobjects : kept.objectNames.Nodup := by
    have hnames := (List.nodup_cons.1 h.names).2
    rw [typeNames, List.append_assoc, List.append_assoc] at hnames
    exact (List.nodup_append.1 hnames).1
  have hnodup : places.Nodup := KeptField.nodup_slotPlacesAll (.root kept.owner) kept.fields
    (fun _ _ heq => by cases heq) hobjects h.siblings.2 h.siblings.1
  have hlength : (run.layOut [model]).pending.length ≤ places.length := by
    rw [pending_layOut_singleton, KeptModel.slots, List.length_map, KeptField.length_slotPlacesAll]
    exact Nat.le_refl _
  -- There are as many places as slots and none is left open, so every slot fills one of them.
  obtain ⟨hfilled, hsame⟩ :=
    @Arena.settleAll_exact (run.layOut [model]).pending { run.layOut [model] with pending := [] } places
      hnodup hopen hlength fun place _ => hclosed place
  obtain ⟨place, hplace, field, hfield, htype⟩ :=
    hfilled slot (pending_layOut_singleton run model ▸ hslot)
  -- Above the place all fields are as they were laid out, and they lead to its holder.
  have hunder : (run.alone model).Under kept.owner place.holder := by
    refine hstands.under (fun other field hother hresolved => ?_) "" (.root kept.owner) .root
      kept.fields first.fields hdone place hplace
    rw [← hother]
    refine hsame other fun hmem => ?_
    obtain ⟨field', hfield', hunresolved⟩ := hopen other hmem
    rw [hother, Option.some.injEq] at hfield'
    rw [hfield', hunresolved] at hresolved
    cases hresolved
  obtain ⟨holder, name⟩ := place
  rw [Arena.fieldAt?] at hfield
  obtain ⟨type, htypeAt, hget⟩ := Option.bind_eq_some_iff.1 hfield
  refine ⟨type, ?_, field, OrderedMap.mem_values_iff.2 ⟨name, hget⟩, htype⟩
  rcases h.reaches_of_under hroot hunder with heq | ⟨object, heq, hreach⟩
  · obtain rfl : holder = .root model.rootName := heq
    exact .inl (Option.some.inj (htypeAt.symm.trans hroot))
  · obtain rfl : holder = .object object := heq
    exact .inr ⟨object, hreach, h.get?_object.2 htypeAt⟩

end Scope

end Run

end ModelGraph
