import ModelGraph.Proofs.Graph.Alone
import ModelGraph.Proofs.Graph.Tables

/-!
# What the types of a run consist of

Whatever names are declared, the types of a run have members: a shape that keeps no field adds no
type, an enum is only made of values, and a mirror without fields is taken back. The fields of these
types mention object types and enums that the run adds, and outputs of targets.

## Main definitions

- `Arena.Populated` — an arena whose types have members
- `Run.words` — the names that the fields of a run may mention

## Main statements

- `Run.populated` — the types of a run have members
- `Run.tidy`, `Run.speaks` — the types of a run use its words
- `Arena.outlines_settleAll` — resolving slots changes nothing but the types of fields
-/

namespace ModelGraph

namespace Arena

/-! ### Members -/

/-- An arena whose types have members. Enums stand under the names of enums, and inputs under those
of inputs. -/
structure Populated (arena : Arena) : Prop where
  roots : ∀ name type, arena.roots.get? name = some type → type.fields.isEmpty = false
  objects : ∀ name type, arena.objects.get? name = some type → type.fields.isEmpty = false
  enums : ∀ name type, arena.enums.get? name = some type →
    type.values ≠ [] ∧ ∃ parent field, name = Naming.enumType parent field
  inputs : ∀ name type, arena.inputs.get? name = some type → type.fields.isEmpty = false
  inputNames : ∀ name ∈ arena.inputs.keys, ∃ object, name = Naming.inputType object

theorem Populated.empty : Populated {} where
  roots _ _ h := by cases h
  objects _ _ h := by cases h
  enums _ _ h := by cases h
  inputs _ _ h := by cases h
  inputNames _ h := by cases h

/-- The words of which every type makes use. -/
def anyWords : Vocabulary := ⟨fun _ => True, fun _ => True, fun _ => True⟩

theorem uses_anyWords (type : FieldType) : type.Uses anyWords := by
  rw [FieldType.Uses]
  split <;> trivial

/-- Every step of laying out fields leaves types with members. -/
theorem inherited_populated : Inherited fun computation =>
    ∀ arena, arena.Populated → (computation.run arena).2.Populated where
  pure _ _ h := h
  bind hfirst hnext arena h := by
    rw [run_bind]
    exact hnext _ _ (hfirst arena h)
  scalarType parent field kind values arena h := by
    rw [run_scalarType]
    split
    · exact h
    · next hvalues =>
      -- An enum is only made of values, of which there is one at least.
      refine ⟨h.roots, h.objects, fun name type hget => ?_, h.inputs, h.inputNames⟩
      rw [OrderedMap.get?_insert] at hget
      split at hget
      · next heq =>
        cases hget
        refine ⟨fun hnil => hvalues ?_, parent, field, heq.symm⟩
        rw [List.map_eq_nil_iff.1 hnil]
        rfl
      · exact h.enums name type hget
  addObject name embedded fields arena h := by
    rw [run_addObject]
    split
    · cases embedded <;> exact ⟨h.roots, h.objects, h.enums, h.inputs, h.inputNames⟩
    · next hfields =>
      refine ⟨h.roots, fun other type hget => ?_, h.enums, h.inputs, h.inputNames⟩
      rw [OrderedMap.get?_insert] at hget
      split at hget
      · cases hget
        simpa using hfields
      · exact h.objects other type hget
  addSlot _ _ h := ⟨h.roots, h.objects, h.enums, h.inputs, h.inputNames⟩
  argumentsOf type arena h := by
    rw [run_argumentsOf]
    split
    · exact h
    · have hspeaks : ModelGraph.Speaks anyWords arena.objects := fun _ _ _ field _ =>
        uses_anyWords field.type
      have hextends := (Arguments.derive_spec hspeaks (uses_anyWords type) arena.inputs).1
      refine ⟨h.roots, h.objects, h.enums, fun name input hget => ?_, fun name hname => ?_⟩
      · exact (hextends.filled name input hget).elim id (h.inputs name input)
      · rcases hextends.fresh name hname with hbefore | ⟨object, -, heq⟩
        · exact h.inputNames name hbefore
        · exact ⟨object, heq⟩
  meetEmbedded model arena h := by
    rw [run_meetEmbedded]
    split
    · exact h
    · exact ⟨h.roots, h.objects, h.enums, h.inputs, h.inputNames⟩

theorem Populated.addModel {arena : Arena} (h : arena.Populated) (settings : SynthSettings)
    (identity : Identity) (model : ModelDecl) :
    ((addModel settings identity model).run arena).2.Populated := by
  have hdeclared : ((declared settings model).run arena).2.Populated :=
    inherited_populated.fields settings _ _ _ _ _ arena h
  rw [run_addModel]
  refine ⟨fun name type hget => ?_, hdeclared.objects, hdeclared.enums, hdeclared.inputs,
    hdeclared.inputNames⟩
  rw [OrderedMap.get?_insert] at hget
  split at hget
  · cases hget
    rw [rootOf]
    dsimp only
    generalize ((declared settings model).run arena).1.toList = entries
    induction entries using List.reverseRecOn with
    | nil => exact OrderedMap.isEmpty_insert
    | append_singleton init last =>
      rw [OrderedMap.insertMany_append]
      exact OrderedMap.isEmpty_insert
  · exact h.roots name type hget

end Arena

/-- The types of a run have members. -/
theorem Run.populated (run : Run) (models : List ModelDecl) : (run.layOut models).Populated :=
  run.layOut_induct models (P := fun _ arena => arena.Populated) .empty fun _ _ model _ h =>
    h.addModel run.settings run.identity model

theorem Run.exists_enumType {run : Run} {models : List ModelDecl} {name : String}
    (h : name ∈ (run.kept models).flatMap KeptModel.enumNames) :
    ∃ parent field, name = Naming.enumType parent field := by
  obtain ⟨enum, hget⟩ := OrderedMap.mem_keys_iff.1 ((run.holds models).mem_enums.2 h)
  exact ((run.populated models).enums name enum hget).2

/-! ### Words -/

namespace KeptField

theorem usesAll_iff {words : Vocabulary} {kept : List KeptField} :
    UsesAll words kept ↔ ∀ field ∈ kept, Uses words field := by
  induction kept with
  | nil => simp [UsesAll]
  | cons first rest ih => simp [UsesAll, ih]

end KeptField

/-- Keeping the fields of models one after another mentions what they add together. -/
theorem ModelDecl.keeps_mapM (settings : SynthSettings) (models : List ModelDecl) (seen : Seen) :
    let kept := (models.mapM (ModelDecl.keep settings)).run seen
    KeptField.Keeps seen (kept.1.flatMap KeptModel.fields) kept.2 := by
  induction models generalizing seen with
  | nil => exact .nil seen
  | cons model rest ih =>
    rw [List.mapM_cons]
    exact (KeptField.keeps_keepAll model.rootName model.ownFields seen).append (ih _)

namespace Run

variable (run : Run) (models : List ModelDecl)

/-- The names that the fields of a run may mention. -/
def words : Vocabulary where
  objects name := name ∈ (run.kept models).flatMap KeptModel.objectNames ∨
    ∃ slot ∈ (run.kept models).flatMap KeptModel.slots, name = Naming.sanitize slot.target
  enums name := name ∈ (run.kept models).flatMap KeptModel.enumNames
  connections name := name ∈ (run.kept models).flatMap KeptModel.connectionNames

/-- The kept fields of a run mention what the run adds. -/
theorem usesAll_words {kept : KeptModel} (hkept : kept ∈ run.kept models) :
    KeptField.UsesAll (run.words models) kept.fields := by
  have hobjects : KeptField.objectNamesAll ((run.kept models).flatMap KeptModel.fields) =
      (run.kept models).flatMap KeptModel.objectNames := by
    rw [KeptField.objectNamesAll_eq_flatMap, List.flatMap_assoc]
    exact List.flatMap_congr fun kept _ => (KeptField.objectNamesAll_eq_flatMap kept.fields).symm
  have henums : KeptField.enumNamesAll ((run.kept models).flatMap KeptModel.fields) =
      (run.kept models).flatMap KeptModel.enumNames := by
    rw [KeptField.enumNamesAll_eq_flatMap, List.flatMap_assoc]
    exact List.flatMap_congr fun kept _ => (KeptField.enumNamesAll_eq_flatMap kept.fields).symm
  have hall : KeptField.UsesAll (run.words models)
      ((run.kept models).flatMap KeptModel.fields) := by
    refine KeptField.UsesAll.mono _ (ModelDecl.keeps_mapM run.settings models {}).uses
      ⟨?_, fun name hname => ?_, fun _ h => h.elim⟩
    · rintro name (hname | ⟨model, hmodel, -⟩)
      · change name ∈ KeptField.objectNamesAll ((run.kept models).flatMap KeptModel.fields) at hname
        rw [hobjects] at hname
        exact .inl hname
      · cases hmodel
    · change name ∈ KeptField.enumNamesAll ((run.kept models).flatMap KeptModel.fields) at hname
      rw [henums] at hname
      exact hname
  refine KeptField.usesAll_iff.2 fun field hfield => KeptField.usesAll_iff.1 hall field ?_
  exact List.mem_flatMap.2 ⟨kept, hkept, hfield⟩

/-- The first phase leaves tidy types, and its roots use the words of the run. -/
theorem tidy_and_roots : (run.layOut models).Tidy (run.words models) ∧
    ∀ name type, (run.layOut models).roots.get? name = some type →
      ∀ field ∈ type.fields.values, field.Uses (run.words models) (run.layOut models).inputs := by
  refine run.layOut_induct models (P := fun kept arena =>
    ∀ words : Vocabulary, (∀ model ∈ kept, KeptField.UsesAll words model.fields) →
      arena.Tidy words ∧ ∀ name type, arena.roots.get? name = some type →
        ∀ field ∈ type.fields.values, field.Uses words arena.inputs)
    (fun words _ => ⟨Arena.tidy_empty words, fun _ _ h => by cases h⟩) ?_ (run.words models)
    fun kept hkept => usesAll_words run models hkept
  intro before arena model _ h words huses
  let kept := ((model.keep run.settings).run arena.seen).1
  obtain ⟨htidy, hroots⟩ := h words fun model hmodel => huses model (List.mem_append_left _ hmodel)
  obtain ⟨hbuilt, hfields, hstay⟩ := KeptField.tidy_buildAll kept.owner "" kept.fields
    (huses kept (List.mem_append_right _ (List.mem_singleton_self _))) ∅ arena htidy
    fun _ hfield => absurd hfield List.not_mem_nil
  rw [Arena.run_addModel_kept]
  refine ⟨⟨hbuilt.objects, hbuilt.enums, hbuilt.inputs, hbuilt.mirrored⟩,
    fun name type hget field hfield => ?_⟩
  change OrderedMap.get? (OrderedMap.insert _ _ _) name = some type at hget
  rw [OrderedMap.get?_insert] at hget
  split at hget
  · obtain rfl := Option.some.inj hget
    rcases Arena.mem_values_rootOf hfield with hfield | rfl
    · exact hfields field hfield
    · exact ⟨trivial, fun _ harg => absurd harg List.not_mem_nil⟩
  · exact (hroots name type hget field hfield).mono hstay

theorem tidy : (run.layOut models).Tidy (run.words models) := (tidy_and_roots run models).1

theorem speaks_layOut : (run.layOut models).Speaks (run.words models) := by
  obtain ⟨htidy, hroots⟩ := tidy_and_roots run models
  rintro ⟨holder, name⟩ field hfield
  rw [Arena.fieldAt?] at hfield
  obtain ⟨type, htype, hfield⟩ := Option.bind_eq_some_iff.1 hfield
  have hmem := OrderedMap.mem_values_iff.2 ⟨name, hfield⟩
  cases holder with
  | root owner => exact hroots owner type htype field hmem
  | object object => exact (htidy.objects object type htype).2 field hmem

/-- With every slot resolved, the types of a run use its words. -/
theorem speaks : (run.layOut models).settled.Speaks (run.words models) := by
  refine Arena.Speaks.settleAll (speaks_layOut run models) fun slot hslot => ?_
  rw [(run.holds models).pending] at hslot
  rw [Arena.resolvedType]
  cases hcardinality : slot.cardinality with
  | single =>
    have hobject : (run.words models).objects (Naming.sanitize slot.target) :=
      .inr ⟨slot, hslot, rfl⟩
    cases slot.nonNull <;> exact hobject
  | plural =>
    obtain ⟨kept, hkept, hslot⟩ := List.mem_flatMap.1 hslot
    exact List.mem_flatMap.2 ⟨kept, hkept, List.mem_map.2
      ⟨slot, List.mem_filter.2 ⟨hslot, decide_eq_true hcardinality⟩, rfl⟩⟩

end Run

/-! ### Resolving -/

namespace Arena

/-- Giving a field another type leaves the outlines of all types alone. -/
theorem outlines_retypeAt (arena : Arena) (place : FieldPlace) (type : FieldType) :
    (arena.retypeAt place type).roots.map ObjectType.outline =
        arena.roots.map ObjectType.outline ∧
      (arena.retypeAt place type).objects.map ObjectType.outline =
        arena.objects.map ObjectType.outline := by
  obtain ⟨holder, name⟩ := place
  rw [retypeAt]
  cases hholder : arena.holder? holder with
  | none => exact ⟨rfl, rfl⟩
  | some object =>
    dsimp only
    cases hfield : object.fields.get? name with
    | none => exact ⟨rfl, rfl⟩
    | some field =>
      have hfields : (object.fields.map OutputField.outline).insert name field.outline =
          object.fields.map OutputField.outline :=
        OrderedMap.insert_of_get? (by rw [OrderedMap.get?_map, hfield, Option.map_some])
      have hsame : (retype object name field type).outline = object.outline := by
        rw [ObjectType.outline, retype, OrderedMap.map_insert]
        exact congrArg (ObjectOutline.mk object.embedded) hfields
      cases holder with
      | root owner =>
        refine ⟨?_, rfl⟩
        change (arena.roots.insert owner _).map _ = _
        rw [OrderedMap.map_insert, hsame, OrderedMap.insert_of_get?]
        rw [OrderedMap.get?_map, show arena.roots.get? owner = some object from hholder]
        rfl
      | object key =>
        refine ⟨rfl, ?_⟩
        change (arena.objects.insert key _).map _ = _
        rw [OrderedMap.map_insert, hsame, OrderedMap.insert_of_get?]
        rw [OrderedMap.get?_map, show arena.objects.get? key = some object from hholder]
        rfl

/-- Resolving slots leaves the outlines of all types alone. -/
theorem outlines_settleAll (arena : Arena) (slots : List ReferenceSlot) :
    (arena.settleAll slots).roots.map ObjectType.outline = arena.roots.map ObjectType.outline ∧
      (arena.settleAll slots).objects.map ObjectType.outline =
        arena.objects.map ObjectType.outline := by
  induction slots generalizing arena with
  | nil => exact ⟨rfl, rfl⟩
  | cons slot rest ih =>
    have hstep : (arena.settle slot (Naming.sanitize slot.target)).roots.map ObjectType.outline =
          arena.roots.map ObjectType.outline ∧
        (arena.settle slot (Naming.sanitize slot.target)).objects.map ObjectType.outline =
          arena.objects.map ObjectType.outline := by
      obtain ⟨hroots, hobjects, -, -⟩ := connect_frame arena slot (Naming.sanitize slot.target)
      rw [settle]
      cases arena.placeOf slot with
      | none => exact ⟨congrArg _ hroots, congrArg _ hobjects⟩
      | some place =>
        obtain ⟨hroots', hobjects'⟩ := outlines_retypeAt
          (arena.connect slot (Naming.sanitize slot.target)) place
          (resolvedType slot (Naming.sanitize slot.target))
        exact ⟨hroots'.trans (congrArg _ hroots), hobjects'.trans (congrArg _ hobjects)⟩
    exact ⟨(ih _).1.trans hstep.1, (ih _).2.trans hstep.2⟩

/-- A type has the outline that it had before its slots were resolved. -/
theorem exists_outline_settleAll {arena : Arena} {slots : List ReferenceSlot} {holder : Holder}
    {type : ObjectType} (h : (arena.settleAll slots).holder? holder = some type) :
    ∃ old, arena.holder? holder = some old ∧ type.outline = old.outline := by
  obtain ⟨hroots, hobjects⟩ := outlines_settleAll arena slots
  have hsame : ((arena.settleAll slots).holder? holder).map ObjectType.outline =
      (arena.holder? holder).map ObjectType.outline := by
    have hget : ∀ {types others : OrderedMap String ObjectType} (name : String),
        types.map ObjectType.outline = others.map ObjectType.outline →
          (types.get? name).map ObjectType.outline = (others.get? name).map ObjectType.outline := by
      intro types others name heq
      rw [← OrderedMap.get?_map, heq, OrderedMap.get?_map]
    cases holder with
    | root name => exact hget name hroots
    | object name => exact hget name hobjects
  rw [h, Option.map_some] at hsame
  obtain ⟨old, hold, houtline⟩ := Option.map_eq_some_iff.1 hsame.symm
  exact ⟨old, hold, houtline.symm⟩

theorem isEmpty_of_outline {type other : ObjectType} (h : type.outline = other.outline) :
    type.fields.isEmpty = other.fields.isEmpty := by
  have hentries := congrArg (fun outline => outline.fields.entries.length) h
  have hlength : type.fields.entries.length = other.fields.entries.length := by
    simpa [ObjectType.outline, OrderedMap.map] using hentries
  rw [OrderedMap.isEmpty, OrderedMap.isEmpty, Bool.eq_iff_iff, List.isEmpty_iff_length_eq_zero,
    List.isEmpty_iff_length_eq_zero, hlength]

/-- Resolving slots leaves all members where they are. -/
theorem Populated.settleAll {arena : Arena} (h : arena.Populated) (slots : List ReferenceSlot) :
    (arena.settleAll slots).Populated := by
  obtain ⟨-, -, henums, hinputs⟩ := settleAll_frame arena slots
  refine ⟨fun name type hget => ?_, fun name type hget => ?_, henums ▸ h.enums, hinputs ▸ h.inputs,
    hinputs ▸ h.inputNames⟩
  · obtain ⟨old, hold, houtline⟩ := exists_outline_settleAll
      (show (arena.settleAll slots).holder? (.root name) = some type from hget)
    exact (isEmpty_of_outline houtline).trans (h.roots name old hold)
  · obtain ⟨old, hold, houtline⟩ := exists_outline_settleAll
      (show (arena.settleAll slots).holder? (.object name) = some type from hget)
    exact (isEmpty_of_outline houtline).trans (h.objects name old hold)

theorem Populated.settled {arena : Arena} (h : arena.Populated) : arena.settled.Populated := by
  have hbefore : Populated { arena with pending := [] } :=
    ⟨h.roots, h.objects, h.enums, h.inputs, h.inputNames⟩
  exact hbefore.settleAll arena.pending

end Arena

end ModelGraph
