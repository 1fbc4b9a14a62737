import ModelGraph.Proofs.Graph.Made

/-!
# What a model draws on

Every kept field asks for types by their names: for enums or a connection, or for the type of its
shape. When no name is made twice, a name tells which field asks for its type. A model draws on the
fields that it declares, and on the shapes of embedded models that were laid out elsewhere. Its root
reaches only types that are made for these fields.

## Main definitions

- `PlacedField.typeNames` — the names of the types that a field asks for
- `Run.Draws` — the fields that a model draws on
- `Run.Known` — the names that a model may reach
- `Run.Distinct` — a run in which names tell what they stand for

## Main statements

- `Run.eq_of_mem_typeNames` — a name that is made once is asked for by one field
- `Run.known_of_field`, `Run.known_of_type` — what fields and types of a model mention is known
- `Run.Distinct.made_of_reaches` — what a model reaches is made for fields that it draws on
-/

namespace ModelGraph

namespace PlacedField

/-- The names of the types that a field asks for: its enums, its connection, or the object type of
its shape. -/
def typeNames (placed : PlacedField) : List String :=
  match placed.field with
  | .value _ _ enums => enums.map EnumType.name
  | .reference head _ .plural =>
    [Naming.connectionType placed.owner (Path.child placed.path head.source)]
  | .reference _ _ .single => []
  | .shape _ _ object _ _ => [object]

/-- A reference ends with the output of its target. -/
theorem settledType_of_slot {placed : PlacedField} {slot : ReferenceSlot}
    (h : placed.slot? = some slot) :
    KeptField.settledType placed.owner placed.path placed.field =
      Arena.resolvedType slot (Naming.sanitize slot.target) := by
  obtain ⟨owner, path, field⟩ := placed
  cases field with
  | value head type enums => cases h
  | shape head inList object embedded fields => cases h
  | reference head target cardinality =>
    obtain rfl := Option.some.inj h
    rw [KeptField.settledType, KeptField.outputType, KeptField.bareType,
      if_neg (by simp [FieldType.isUnresolved, FieldType.innermost])]
    rfl

theorem mem_typeNames_of_slot {placed : PlacedField} {slot : ReferenceSlot}
    (h : placed.slot? = some slot) (hplural : slot.cardinality = .plural) :
    Naming.connectionType slot.owner slot.path ∈ placed.typeNames := by
  obtain ⟨owner, path, field⟩ := placed
  cases field with
  | value head type enums => cases h
  | shape head inList object embedded fields => cases h
  | reference head target cardinality =>
    obtain rfl := Option.some.inj h
    obtain rfl : cardinality = .plural := hplural
    exact List.mem_singleton_self _

/-- A type that is made for a field has a name that the field asks for, or mirrors a type of such a
name. -/
theorem MakesWith.name_cases {typeOf : String → String → KeptField → FieldType}
    {placed : PlacedField} {type : NamedType} (h : placed.MakesWith typeOf type) :
    type.name ∈ placed.typeNames ∨ ∃ input object, type = .input input ∧
      object ∈ placed.typeNames ∧ input.name = Naming.inputType object := by
  cases h with
  | enum henum => exact .inl (List.mem_map_of_mem henum)
  | connection hslot hplural => exact .inl (mem_typeNames_of_slot hslot hplural)
  | object hname => exact .inl (List.mem_singleton.2 hname)
  | input hname => exact .inr ⟨_, _, rfl, List.mem_singleton_self _, hname⟩

end PlacedField

namespace KeptField

/-- The connections of the plural references of fields below the type at a path. -/
def connectionNamesAll (owner path : String) (kept : List KeptField) : List String :=
  (((referencesAll kept).map (Reference.slot owner path)).filter fun slot =>
    slot.cardinality = .plural).map fun slot => Naming.connectionType slot.owner slot.path

theorem connectionNamesAll_cons (owner path : String) (kept : KeptField) (rest : List KeptField) :
    connectionNamesAll owner path (kept :: rest) =
      connectionNamesAll owner path [kept] ++ connectionNamesAll owner path rest := by
  simp only [connectionNamesAll, referencesAll, List.map_append, List.filter_append, List.append_nil]

mutual

theorem perm_placed (owner path : String) : (kept : KeptField) →
    ((placed owner path kept).flatMap PlacedField.typeNames).Perm
      (objectNames kept ++ enumNames kept ++ connectionNamesAll owner path [kept])
  | .value head type enums => by
    rw [placed, connectionNamesAll, referencesAll, references, referencesAll, objectNames, enumNames,
      List.flatMap_singleton]
    simp [PlacedField.typeNames]
  | .reference head target cardinality => by
    rw [placed, connectionNamesAll, referencesAll, references, referencesAll, objectNames, enumNames,
      List.flatMap_singleton]
    cases cardinality <;> simp [PlacedField.typeNames, Reference.slot]
  | .shape head inList object embedded fields => by
    have hbelow : connectionNamesAll owner path [.shape head inList object embedded fields] =
        connectionNamesAll owner (Path.child path head.source) fields := by
      rw [connectionNamesAll, referencesAll, references, referencesAll, List.append_nil, List.map_map]
      rfl
    rw [placed, objectNames, enumNames, hbelow, List.flatMap_cons, List.append_assoc,
      List.append_assoc]
    refine ((perm_placedAll owner (Path.child path head.source) fields).cons object).trans ?_
    rw [List.append_assoc]
    exact List.perm_middle.symm

/-- Fields ask for their object types, enums and connections, and for no other ones. -/
theorem perm_placedAll (owner path : String) : (kept : List KeptField) →
    ((placedAll owner path kept).flatMap PlacedField.typeNames).Perm
      (objectNamesAll kept ++ enumNamesAll kept ++ connectionNamesAll owner path kept)
  | [] => by
    rw [placedAll, objectNamesAll, enumNamesAll]
    rfl
  | kept :: rest => by
    have hfirst := perm_placed owner path kept
    have hrest := perm_placedAll owner path rest
    -- The three kinds of names of the first field stand between those of the rest: count them.
    rw [List.perm_iff_count] at hfirst hrest ⊢
    intro name
    specialize hfirst name
    specialize hrest name
    rw [placedAll, objectNamesAll, enumNamesAll, connectionNamesAll_cons]
    simp only [List.flatMap_append, List.count_append] at hfirst hrest ⊢
    omega

end

mutual

theorem slots_placed (owner path : String) : (kept : KeptField) →
    (placed owner path kept).filterMap PlacedField.slot? =
      (references kept).map (Reference.slot owner path)
  | .value _ _ _ | .reference _ _ _ => by
    rw [placed, references]
    rfl
  | .shape head inList object embedded fields => by
    rw [placed, references, List.map_map]
    exact slots_placedAll owner (Path.child path head.source) fields

/-- The slots of fields are those of their references. -/
theorem slots_placedAll (owner path : String) : (kept : List KeptField) →
    (placedAll owner path kept).filterMap PlacedField.slot? =
      (referencesAll kept).map (Reference.slot owner path)
  | [] => rfl
  | kept :: rest => by
    rw [placedAll, referencesAll, List.filterMap_append, List.map_append, slots_placed,
      slots_placedAll]

end

end KeptField

theorem perm_flatMap_placed (models : List KeptModel) :
    ((models.flatMap KeptModel.placed).flatMap PlacedField.typeNames).Perm
      (models.flatMap KeptModel.objectNames ++ models.flatMap KeptModel.enumNames
        ++ models.flatMap KeptModel.connectionNames) := by
  induction models with
  | nil => rfl
  | cons model rest ih =>
    have hmodel := KeptField.perm_placedAll model.owner "" model.fields
    rw [List.perm_iff_count] at hmodel ih ⊢
    intro name
    specialize hmodel name
    specialize ih name
    have hconnections : model.connectionNames =
        KeptField.connectionNamesAll model.owner "" model.fields := rfl
    simp only [List.flatMap_cons, List.flatMap_append, List.count_append, hconnections] at ih ⊢
    simp only [List.count_append] at hmodel
    simp only [KeptModel.placed, KeptModel.objectNames, KeptModel.enumNames] at ih ⊢
    omega

namespace Run

variable {run : Run} {models : List ModelDecl}

theorem mem_placed_of_below {placed found : PlacedField} (h : placed ∈ run.placed models)
    (hfound : found ∈ placed.below) : found ∈ run.placed models := by
  obtain ⟨kept, hkept, hplaced⟩ := List.mem_flatMap.1 h
  exact List.mem_flatMap.2
    ⟨kept, hkept, KeptField.placedAll_subset kept.owner "" kept.fields placed hplaced hfound⟩

theorem mem_typeNames_iff {name : String} :
    name ∈ (run.placed models).flatMap PlacedField.typeNames ↔
      name ∈ (run.kept models).flatMap KeptModel.objectNames ∨
        name ∈ (run.kept models).flatMap KeptModel.enumNames ∨
          name ∈ (run.kept models).flatMap KeptModel.connectionNames := by
  rw [placed, (perm_flatMap_placed (run.kept models)).mem_iff, List.mem_append, List.mem_append,
    or_assoc]

section Nodup

variable (h : (run.generatedNames models).Nodup)

include h

/-- A name that is made once is asked for by one field. -/
theorem eq_of_mem_typeNames {placed other : PlacedField} (hplaced : placed ∈ run.placed models)
    (hother : other ∈ run.placed models) {name : String} (hname : name ∈ placed.typeNames)
    (hname' : name ∈ other.typeNames) : placed = other := by
  -- Object types, enums and connections stand together among the names that a run makes.
  obtain ⟨hfour, -, -⟩ := List.nodup_append.1 h
  rw [List.append_assoc, List.append_assoc] at hfour
  obtain ⟨-, hnodup, -⟩ := List.nodup_append.1 hfour
  rw [← List.append_assoc, ← (perm_flatMap_placed (run.kept models)).nodup_iff] at hnodup
  exact eq_of_mem_of_nodup_flatMap hnodup hplaced hother hname hname'

/-- A name that is made once is that of one type: of a field, of a root or of an input. -/
theorem notMem_of_mem_typeNames {name : String}
    (hname : name ∈ (run.placed models).flatMap PlacedField.typeNames) :
    name ∉ models.map ModelDecl.rootName ∧ name ∉ (run.layOut models).inputs.keys := by
  obtain ⟨hfour, -, hinputs⟩ := List.nodup_append.1 h
  rw [List.append_assoc, List.append_assoc] at hfour
  obtain ⟨-, -, hroots⟩ := List.nodup_append.1 hfour
  have hmem : name ∈ (run.kept models).flatMap KeptModel.objectNames ++
      ((run.kept models).flatMap KeptModel.enumNames
        ++ (run.kept models).flatMap KeptModel.connectionNames) := by
    rw [List.mem_append, List.mem_append]
    exact mem_typeNames_iff.1 hname
  refine ⟨fun hroot => hroots name hroot name hmem rfl, fun hinput => ?_⟩
  refine hinputs name ?_ name hinput rfl
  rw [List.append_assoc, List.append_assoc]
  exact List.mem_append_right _ hmem

end Nodup

/-! ### Drawing on fields -/

variable (run models)

/-- The fields that a model draws on: those that it declares, at any depth, and with a field of an
embedded type that was met before, the shape of that type and all that is declared below it. -/
inductive Draws (kept : KeptModel) : PlacedField → Prop
  | own {placed : PlacedField} : placed ∈ kept.placed → Draws kept placed
  | shared {owner path object : String} {head : FieldHead} {type : FieldType}
      {enums : List EnumType} {shape found : PlacedField} {first : FieldHead} {inList : Bool}
      {fields : List KeptField} : Draws kept ⟨owner, path, .value head type enums⟩ →
      type.objectName? = some object → shape ∈ run.placed models →
      shape.field = .shape first inList object true fields → found ∈ shape.below →
      Draws kept found

variable {run models} {kept : KeptModel} {placed found : PlacedField}

theorem Draws.mem_placed (h : run.Draws models kept placed) (hkept : kept ∈ run.kept models) :
    placed ∈ run.placed models := by
  cases h with
  | own hmem => exact List.mem_flatMap.2 ⟨kept, hkept, hmem⟩
  | shared _ _ hshape _ hfound => exact mem_placed_of_below hshape hfound

/-- With a field, a model draws on all that is declared below it. -/
theorem Draws.of_below (h : run.Draws models kept placed) (hfound : found ∈ placed.below) :
    run.Draws models kept found := by
  cases h with
  | own hmem =>
    exact .own (KeptField.placedAll_subset kept.owner "" kept.fields placed hmem hfound)
  | shared hdraws hobject hshape hfield hbelow =>
    refine .shared hdraws hobject hshape hfield ?_
    exact KeptField.placed_subset _ _ _ placed hbelow hfound

/-- A model that draws on a shape draws on its fields. -/
theorem Draws.of_shape {owner path name : String} {head : FieldHead} {inList embedded : Bool}
    {fields : List KeptField}
    (h : run.Draws models kept ⟨owner, path, .shape head inList name embedded fields⟩)
    {field : KeptField} (hfield : field ∈ fields) :
    run.Draws models kept ⟨owner, Path.child path head.source, field⟩ := by
  refine h.of_below ?_
  rw [PlacedField.below, KeptField.placed]
  exact List.mem_cons_of_mem _ (KeptField.mem_placedAll_self hfield)

/-- The object types that the kept fields of a run have without laying them out are those of embedded
models that are laid out elsewhere in the run. -/
theorem refersTo_of_mem (h : placed ∈ run.placed models) :
    placed.field.RefersTo fun name => ∃ shape ∈ run.placed models, ∃ head inList fields,
      shape.field = .shape head inList name true fields := by
  have hkeeps : KeptField.Keeps {} ((run.kept models).flatMap KeptModel.fields) _ :=
    ModelDecl.keeps_mapM run.settings models {}
  obtain ⟨kept, hkept, hplaced⟩ := List.mem_flatMap.1 h
  obtain ⟨field, hfield, hplaced⟩ := KeptField.mem_placedAll.1 hplaced
  have hmem : placed ∈ KeptField.placedAll kept.owner ""
      ((run.kept models).flatMap KeptModel.fields) :=
    KeptField.mem_placedAll.2 ⟨field, List.mem_flatMap.2 ⟨kept, hkept, hfield⟩, hplaced⟩
  refine (hkeeps.values kept.owner "" placed hmem).mono fun name hname => ?_
  rcases hname with hadds | ⟨model, hmodel, -⟩
  · obtain ⟨shape, hshape, head, inList, fields, heq⟩ := hadds "" ""
    obtain ⟨first, hfirst, hshape⟩ := KeptField.mem_placedAll.1 hshape
    obtain ⟨other, hother, hfirst⟩ := List.mem_flatMap.1 hfirst
    -- Another owner has the same field at its own place.
    have hmap := List.mem_map_of_mem (f := PlacedField.field) hshape
    rw [KeptField.fields_placed "" "" other.owner ""] at hmap
    obtain ⟨found, hfound, hsame⟩ := List.mem_map.1 hmap
    exact ⟨found, List.mem_flatMap.2 ⟨other, hother, KeptField.mem_placedAll.2 ⟨first, hfirst, hfound⟩⟩,
      head, inList, fields, hsame.trans heq⟩
  · cases hmodel

/-! ### Names that a model reaches -/

/-- An enum at the core of a field's type is one of the field. -/
theorem Draws.of_enum (h : run.Draws models kept placed) (hkept : kept ∈ run.kept models)
    {name : String}
    (hcore : (KeptField.outputType placed.owner placed.path placed.field).innermost = .enum name) :
    name ∈ placed.typeNames := by
  have hrefers := refersTo_of_mem (h.mem_placed hkept)
  obtain ⟨owner, path, field⟩ := placed
  rw [KeptField.innermost_outputType] at hcore
  cases field with
  | value head type enums =>
    rw [KeptField.RefersTo, show type.innermost = _ from hcore] at hrefers
    exact hrefers
  | reference head target cardinality => cases hcore
  | shape head inList object embedded fields => cases inList <;> cases hcore

/-- An object type at the core of a field's type belongs to a field on which the model draws too. -/
theorem Draws.of_object (h : run.Draws models kept placed) (hkept : kept ∈ run.kept models)
    {name : String}
    (hcore : (KeptField.outputType placed.owner placed.path placed.field).innermost = .object name) :
    ∃ found, run.Draws models kept found ∧ name ∈ found.typeNames := by
  have hrefers := refersTo_of_mem (h.mem_placed hkept)
  obtain ⟨owner, path, field⟩ := placed
  rw [KeptField.innermost_outputType] at hcore
  cases field with
  | value head type enums =>
    have hobject : type.objectName? = some name := by
      rw [FieldType.objectName?, show type.innermost = _ from hcore]
    rw [KeptField.RefersTo, show type.innermost = _ from hcore] at hrefers
    obtain ⟨⟨other, place, shape⟩, hshape, first, inList, fields, rfl⟩ := hrefers
    exact ⟨_, .shared h hobject hshape rfl (KeptField.mem_placed_self ..),
      List.mem_singleton_self _⟩
  | reference head target cardinality => cases hcore
  | shape head inList object embedded fields =>
    refine ⟨_, h, ?_⟩
    cases inList <;> cases hcore <;> exact List.mem_singleton_self _

/-- The slot of a field is among those that the first phase leaves behind. -/
theorem mem_pending_of_placed (h : placed ∈ run.placed models) {slot : ReferenceSlot}
    (hslot : placed.slot? = some slot) : slot ∈ (run.layOut models).pending := by
  obtain ⟨kept, hkept, hplaced⟩ := List.mem_flatMap.1 h
  rw [(run.holds models).pending]
  refine List.mem_flatMap.2 ⟨kept, hkept, ?_⟩
  rw [KeptModel.slots, KeptModel.references, ← KeptField.slots_placedAll]
  exact List.mem_filterMap.2 ⟨placed, hplaced, hslot⟩

variable (run models kept) in
/-- The names that a model may reach: those that every schema knows, roots, and the types and mirrors
of the fields that it draws on. -/
def Known (name : String) : Prop :=
  Arguments.isBuiltIn name = true ∨ name ∈ models.map ModelDecl.rootName ∨
    (∃ placed, run.Draws models kept placed ∧ name ∈ placed.typeNames) ∨
    (name ∈ (run.layOut models).inputs.keys ∧ ∃ placed, run.Draws models kept placed ∧
      ∃ object ∈ placed.typeNames, name = Naming.inputType object)

/-- The arguments for a field on which a model draws have known types. -/
theorem Draws.known_arg (h : run.Draws models kept placed) (hkept : kept ∈ run.kept models)
    {arg : ArgType}
    (hmatches : arg.Matches [KeptField.outputType placed.owner placed.path placed.field])
    (huses : arg.Uses (run.words models) (run.layOut models).inputs) :
    run.Known models kept arg.innermost := by
  rcases hmatches with hbuiltIn | ⟨type, htype, hname⟩
  · exact .inl hbuiltIn
  rw [List.mem_singleton.1 htype, FieldType.argNames] at hname
  cases hcore : (KeptField.outputType placed.owner placed.path placed.field).innermost with
  | enum name =>
    rw [hcore] at hname
    rw [List.mem_singleton.1 hname]
    exact .inr (.inr (.inl ⟨placed, h, h.of_enum hkept hcore⟩))
  | object name =>
    rw [hcore] at hname
    have heq := List.mem_singleton.1 hname
    obtain ⟨found, hfound, hobject⟩ := h.of_object hkept hcore
    rcases huses with hbuiltIn | henum | hinput
    · exact .inl hbuiltIn
    · obtain ⟨parent, field, henum⟩ := exists_enumType henum
      exact absurd (henum.symm.trans heq) (Naming.enumType_ne_inputType parent field name)
    · exact .inr (.inr (.inr ⟨hinput, found, hfound, name, hobject, heq⟩))
  | scalar _ | connection _ | list _ | nonNull _ | unresolved _ =>
    rw [hcore] at hname
    exact absurd hname List.not_mem_nil

/-- The type of a field that is no reference is finished when the field is laid out. -/
theorem settledType_of_slot?_eq_none (h : placed ∈ run.placed models) (hslot : placed.slot? = none) :
    KeptField.settledType placed.owner placed.path placed.field =
      KeptField.outputType placed.owner placed.path placed.field := by
  refine FieldType.settled_of_closed ?_
  have hrefers := refersTo_of_mem h
  obtain ⟨owner, path, field⟩ := placed
  rw [KeptField.isUnresolved_outputType]
  cases field with
  | value head type enums =>
    change type.isUnresolved = false
    rw [KeptField.RefersTo] at hrefers
    rw [FieldType.isUnresolved]
    cases hcore : type.innermost with
    | unresolved slot =>
      rw [hcore] at hrefers
      exact hrefers.elim
    | scalar _ | enum _ | object _ | connection _ | list _ | nonNull _ => rfl
  | reference head target cardinality => cases hslot
  | shape head inList object embedded fields => cases inList <;> rfl

/-- The types at the core of a field on which a model draws are known. -/
theorem Draws.known_type (h : run.Draws models kept placed) (hkept : kept ∈ run.kept models)
    (hlisted : ∀ slot ∈ (run.layOut models).pending, slot.target ∈ models.map ModelDecl.name)
    {name : String}
    (hcore : (KeptField.settledType placed.owner placed.path placed.field).innermost ∈
      [.enum name, .object name, .connection name]) : run.Known models kept name := by
  have hplaced := h.mem_placed hkept
  cases hslot : placed.slot? with
  | none =>
    rw [settledType_of_slot?_eq_none hplaced hslot] at hcore
    simp only [List.mem_cons, List.not_mem_nil, or_false] at hcore
    rcases hcore with hcore | hcore | hcore
    · exact .inr (.inr (.inl ⟨placed, h, h.of_enum hkept hcore⟩))
    · exact .inr (.inr (.inl (h.of_object hkept hcore)))
    · have hrefers := refersTo_of_mem hplaced
      obtain ⟨owner, path, field⟩ := placed
      rw [KeptField.innermost_outputType] at hcore
      cases field with
      | value head type enums =>
        rw [KeptField.RefersTo, show type.innermost = _ from hcore] at hrefers
        exact hrefers.elim
      | reference head target cardinality => cases hcore
      | shape head inList object embedded fields => cases inList <;> cases hcore
  | some slot =>
    have htarget := hlisted slot (mem_pending_of_placed hplaced hslot)
    rw [PlacedField.settledType_of_slot hslot, Arena.resolvedType] at hcore
    cases hcardinality : slot.cardinality with
    | single =>
      have hname : Naming.sanitize slot.target = name := by
        cases hnull : slot.nonNull <;>
          simpa [hcardinality, hnull, FieldType.innermost] using hcore
      obtain ⟨model, hmodel, htarget⟩ := List.mem_map.1 htarget
      exact .inr (.inl (List.mem_map.2 ⟨model, hmodel, (congrArg _ htarget).trans hname⟩))
    | plural =>
      have hname : Naming.connectionType slot.owner slot.path = name := by
        simpa [hcardinality, FieldType.innermost] using hcore
      exact .inr (.inr (.inl ⟨placed, h,
        hname ▸ PlacedField.mem_typeNames_of_slot hslot hcardinality⟩))

/-! ### What a model reaches -/

/-- The fields of a type of a run use its words. -/
theorem uses_of_holder? {holder : Holder} {type : ObjectType}
    (h : (run.layOut models).settled.holder? holder = some type) :
    ∀ field ∈ type.fields.values, field.Uses (run.words models) (run.layOut models).inputs := by
  intro field hfield
  obtain ⟨key, hget⟩ := OrderedMap.mem_values_iff.1 hfield
  rw [← (Arena.settled_frame (run.layOut models)).2.2.2]
  refine run.speaks models ⟨holder, key⟩ field ?_
  rw [Arena.fieldAt?, h]
  exact hget

section Listed

variable (hkept : kept ∈ run.kept models)
  (hlisted : ∀ slot ∈ (run.layOut models).pending, slot.target ∈ models.map ModelDecl.name)

include hkept hlisted

/-- What a field mentions that is laid out for fields on which a model draws is known. -/
theorem known_of_field {owner path : String} {fields : List KeptField} {field : OutputField}
    (hdraws : ∀ first ∈ fields, run.Draws models kept ⟨owner, path, first⟩)
    (hof : KeptField.FieldOf KeptField.settledType owner path fields field)
    (huses : field.Uses (run.words models) (run.layOut models).inputs) :
    ∀ name ∈ field.mentions, run.Known models kept name := by
  obtain ⟨first, hfirst, -, htype, hargs⟩ := hof
  have hdrawn := hdraws first hfirst
  intro name hname
  rcases List.mem_append.1 hname with hname | hname
  · refine hdrawn.known_type hkept hlisted ?_
    rw [htype] at hname
    dsimp only
    cases hcore : (KeptField.settledType owner path first).innermost with
    | enum _ | object _ | connection _ =>
      rw [hcore] at hname
      rw [List.mem_singleton.1 hname]
      simp
    | scalar _ | list _ | nonNull _ | unresolved _ =>
      rw [hcore] at hname
      exact absurd hname List.not_mem_nil
  · obtain ⟨arg, harg, rfl⟩ := List.mem_map.1 hname
    exact hdrawn.known_arg hkept (hargs arg harg) (huses.args arg harg)

/-- What a type mentions that is made for a field on which a model draws is known. -/
theorem known_of_type {name : String} {type : NamedType} (hdraws : run.Draws models kept placed)
    (hmakes : placed.Makes type)
    (hget : (run.layOut models).settled.namedTypes.get? name = some type) :
    ∀ next ∈ type.mentions, run.Known models kept next := by
  cases hmakes with
  | enum _ | connection _ _ => exact fun _ hnext => absurd hnext List.not_mem_nil
  | object _ _ hfields =>
    have hholder : (run.layOut models).settled.holder? (.object name) = some _ :=
      Arena.get?_objects_of_namedTypes hget
    intro next hnext
    obtain ⟨field, hfield, hnext⟩ := List.mem_flatMap.1 hnext
    exact known_of_field hkept hlisted (fun first hfirst => hdraws.of_shape hfirst)
      (hfields field hfield) (uses_of_holder? hholder field hfield) next hnext
  | input _ hargs =>
    have hinput := (run.type?_graphOf models (run.layOut models).settled name).trans hget
    rw [← TypeGraph.input?_eq_some_iff, run.input?_graphOf] at hinput
    intro next hnext
    obtain ⟨arg, harg, rfl⟩ := List.mem_map.1 hnext
    have huses := ((run.tidy models).inputs name _ hinput).2 arg harg
    rcases hargs arg harg with hbuiltIn | ⟨type, htype, hname⟩
    · exact .inl hbuiltIn
    · obtain ⟨first, hfirst, rfl⟩ := List.mem_map.1 htype
      exact (hdraws.of_shape hfirst).known_arg hkept
        (.inr ⟨_, List.mem_singleton_self _, hname⟩) huses

end Listed

/-! ### Distinct names -/

variable (run models) in
/-- A legible run that makes no type name twice, and no object type under a name that every schema
knows. -/
structure Distinct : Prop where
  legible : run.Legible models
  names : (run.generatedNames models).Nodup
  builtIn : ∀ name ∈ (run.kept models).flatMap KeptModel.objectNames,
    Arguments.isBuiltIn name = false

section Distinct

variable (h : run.Distinct models)

include h

theorem Distinct.isBuiltIn_typeNames {name : String} (hplaced : placed ∈ run.placed models)
    (hname : name ∈ placed.typeNames) : Arguments.isBuiltIn name = false := by
  rcases mem_typeNames_iff.1 (List.mem_flatMap.2 ⟨placed, hplaced, hname⟩) with
    hobject | henum | hconnection
  · exact h.builtIn name hobject
  · obtain ⟨parent, field, rfl⟩ := exists_enumType henum
    exact Arguments.isBuiltIn_append (by decide) _
  · obtain ⟨model, -, hconnection⟩ := List.mem_flatMap.1 hconnection
    obtain ⟨slot, -, rfl⟩ := List.mem_map.1 hconnection
    exact Arguments.isBuiltIn_append (by decide) _

/-- A known name with a type is that of one which is made for a field that the model draws on. -/
theorem Distinct.made_of_known (hkept : kept ∈ run.kept models) {name : String}
    (hknown : run.Known models kept name) {type : NamedType}
    (hget : (run.layOut models).settled.namedTypes.get? name = some type) :
    ∃ placed, run.Draws models kept placed ∧ placed.Makes type := by
  obtain ⟨rfl, placed, hplaced, hmakes⟩ := h.legible.made hget
  rcases hmakes.name_cases with hname | ⟨input, object, rfl, hobject, hname⟩
  -- Of the names that are asked for, each is asked for by one field, and is no other name.
  · obtain ⟨hroot, hinput⟩ :=
      notMem_of_mem_typeNames h.names (List.mem_flatMap.2 ⟨placed, hplaced, hname⟩)
    rcases hknown with hbuiltIn | hknown | ⟨found, hfound, hmem⟩ | ⟨hknown, -⟩
    · rw [h.isBuiltIn_typeNames hplaced hname] at hbuiltIn
      cases hbuiltIn
    · exact absurd hknown hroot
    · obtain rfl := eq_of_mem_typeNames h.names (hfound.mem_placed hkept) hplaced hmem hname
      exact ⟨found, hfound, hmakes⟩
    · exact absurd hknown hinput
  -- The names of inputs tell the object types that they mirror.
  · have hfind := (run.type?_graphOf models (run.layOut models).settled _).trans hget
    rw [← TypeGraph.input?_eq_some_iff, run.input?_graphOf] at hfind
    have hinput := OrderedMap.mem_keys_of_get? hfind
    rcases hknown with hbuiltIn | hknown | ⟨found, hfound, hmem⟩ | ⟨-, found, hfound, other, hmem, heq⟩
    · rw [show NamedType.name (.input input) = Naming.inputType object from hname,
        show Arguments.isBuiltIn (Naming.inputType object) = false from
          Arguments.isBuiltIn_append (by decide) _] at hbuiltIn
      cases hbuiltIn
    · obtain ⟨-, -, hapart⟩ := List.nodup_append.1 h.names
      refine absurd rfl (hapart _ ?_ _ hinput)
      simp only [List.mem_append]
      exact .inl (.inl (.inl hknown))
    · exact absurd hinput (notMem_of_mem_typeNames h.names
        (List.mem_flatMap.2 ⟨found, hfound.mem_placed hkept, hmem⟩)).2
    · obtain rfl := Naming.inputType_inj (heq.symm.trans hname)
      obtain rfl := eq_of_mem_typeNames h.names (hfound.mem_placed hkept) hplaced hmem hobject
      exact ⟨found, hfound, hmakes⟩

/-- Every type that the root of a model reaches is made for a field that the model draws on. -/
theorem Distinct.made_of_reaches (hkept : kept ∈ run.kept models)
    (hlisted : ∀ slot ∈ (run.layOut models).pending, slot.target ∈ models.map ModelDecl.name)
    {root : ObjectType} (hroot : (run.layOut models).settled.roots.get? kept.owner = some root)
    {name : String} {type : NamedType}
    (hreach : Reaches (run.layOut models).settled.namedTypes.get? root.mentions name)
    (hget : (run.layOut models).settled.namedTypes.get? name = some type) :
    ∃ placed, run.Draws models kept placed ∧ placed.Makes type := by
  refine h.made_of_known hkept (hreach.closed (fun next hnext => ?_)
    fun next other hknown hother following hfollowing => ?_) hget
  · obtain ⟨other, hother, howner, hrootOf⟩ := h.legible.rootOf hroot
    have howners := h.legible.owners
    rw [← owners_kept run] at howners
    obtain rfl := List.inj_on_of_nodup_map howners hother hkept howner
    obtain ⟨field, hfield, hnext⟩ := List.mem_flatMap.1 hnext
    rcases hrootOf field hfield with ⟨source, rfl⟩ | hof
    · exact absurd hnext List.not_mem_nil
    · have hholder : (run.layOut models).settled.holder? (.root other.owner) = some root := hroot
      exact known_of_field hkept hlisted (fun first hfirst =>
        .own (KeptField.mem_placedAll_self hfirst)) hof
        (uses_of_holder? hholder field hfield) next hnext
  · obtain ⟨placed, hdraws, hmakes⟩ := h.made_of_known hkept hknown hother
    exact known_of_type hkept hlisted hdraws hmakes hother following hfollowing

end Distinct

end Run

end ModelGraph
