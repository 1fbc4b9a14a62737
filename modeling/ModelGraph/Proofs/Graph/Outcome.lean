import ModelGraph.Proofs.Graph.Closed
import ModelGraph.Proofs.Graph.Trace

/-!
# When a run fails

A run fails when a key occurs twice, or else when a target is not the name of a model. Declared names
can make it fail later, in two ways. A slot is left when its path does not lead back to it, since a
name holds a dot or types have overwritten each other. And a field mentions an object type in vain
when an enum, a connection or an input has the name of that type.

## Main definitions

- `Run.Ambiguous` — names of object types that types of other kinds have too
- `Run.Legible` — a run whose slots are found again, and whose names are not ambiguous

## Main statements

- `Run.Legible.closed` — no slot is left in a legible run
- `Run.synthesize_outcome` — whether a run fails, and with which error
-/

namespace ModelGraph

/-! ### Keys -/

/-- The keys of models pass when none occurs twice. -/
theorem checkKeys_eq_ok {seen : List String} {models : List ModelDecl}
    (hseen : ∀ model ∈ models, model.key ∉ seen) (hnodup : (models.map ModelDecl.key).Nodup) :
    checkKeys seen models = .ok () := by
  induction models generalizing seen with
  | nil => rfl
  | cons model rest ih =>
    obtain ⟨hmodel, hrest⟩ := List.forall_mem_cons.1 hseen
    obtain ⟨hnew, hnodup⟩ := List.nodup_cons.1 hnodup
    rw [checkKeys, if_neg (by simpa using hmodel)]
    refine ih (fun other hother => ?_) hnodup
    rw [List.mem_cons, not_or]
    exact ⟨fun heq => hnew (heq ▸ List.mem_map_of_mem hother), hrest other hother⟩

/-- The first key that occurs before is refused. -/
theorem checkKeys_of_repeated {seen : List String} {before after : List ModelDecl}
    {model : ModelDecl} (hseen : ∀ other ∈ before, other.key ∉ seen)
    (hnodup : (before.map ModelDecl.key).Nodup)
    (hkey : model.key ∈ seen ∨ model.key ∈ before.map ModelDecl.key) :
    checkKeys seen (before ++ model :: after) = .error (.duplicateModel model.key) := by
  induction before generalizing seen with
  | nil =>
    rw [List.nil_append, checkKeys, if_pos]
    simpa using hkey
  | cons first rest ih =>
    obtain ⟨hfirst, hrest⟩ := List.forall_mem_cons.1 hseen
    obtain ⟨hnew, hnodup⟩ := List.nodup_cons.1 hnodup
    rw [List.cons_append, checkKeys, if_neg (by simpa using hfirst)]
    refine ih (fun other hother => ?_) hnodup ?_
    · rw [List.mem_cons, not_or]
      exact ⟨fun heq => hnew (heq ▸ List.mem_map_of_mem hother), hrest other hother⟩
    · rw [List.mem_cons]
      rcases hkey with hkey | hkey
      · exact .inl (.inr hkey)
      · exact (List.mem_cons.1 hkey).imp .inl id

/-! ### Slots at their places -/

theorem Arena.isUnresolved_resolvedType (slot : ReferenceSlot) (node : String) :
    (resolvedType slot node).isUnresolved = false := by
  obtain ⟨owner, path, target, cardinality, nonNull⟩ := slot
  cases cardinality <;> cases nonNull <;> rfl

@[simp] theorem FieldType.isUnresolved_asNonNull (type : FieldType) :
    type.asNonNull.isUnresolved = type.isUnresolved := by
  cases type <;> rfl

namespace KeptField

theorem isUnresolved_outputType (owner path : String) (kept : KeptField) :
    (outputType owner path kept).isUnresolved = (bareType owner path kept).isUnresolved := by
  rw [outputType]
  split
  · exact FieldType.isUnresolved_asNonNull _
  · rfl

section Stands

variable {arena : Arena} {words : Vocabulary} {owner : String}

/-- Only the places of references are open. -/
theorem StandsAll.mem_slotPlacesAll {path : String} {objects : OrderedMap String ObjectType}
    {done : OrderedMap String OutputField} (holder : Holder) {kept : List KeptField}
    (hstands : StandsAll owner path objects kept done) (huses : UsesAll words kept)
    {first : KeptField} (hfirst : first ∈ kept) {field : OutputField}
    (hget : done.get? (name first) = some field) (hopen : field.type.isUnresolved = true) :
    ⟨holder, name first⟩ ∈ slotPlacesAll holder kept := by
  induction kept with
  | nil => cases hfirst
  | cons kept rest ih =>
    rw [StandsAll] at hstands
    rw [UsesAll] at huses
    rw [slotPlacesAll]
    rcases List.mem_cons.1 hfirst with rfl | hfirst
    · obtain ⟨⟨field', hget', htype⟩, -, -⟩ := hstands
      obtain rfl : field = field' := Option.some.inj (hget.symm.trans hget')
      rw [htype, isUnresolved_outputType] at hopen
      refine List.mem_append_left _ ?_
      cases first with
      | value head type enums =>
        have hclosed := huses.1
        rw [Uses] at hclosed
        rw [bareType, hclosed.1] at hopen
        cases hopen
      | reference head target cardinality =>
        rw [slotPlaces]
        exact List.mem_singleton_self _
      | shape head inList object embedded fields =>
        cases inList <;> cases hopen
    · exact List.mem_append_right _ (ih hstands.2.2 huses.2 hfirst)

mutual

theorem Stands.locate (path : String) (holder : Holder) : (kept : KeptField) →
    Stands owner path arena.objects kept →
    (∃ field, arena.fieldAt? ⟨holder, name kept⟩ = some field ∧
      field.type = outputType owner path kept) →
      ∀ place ∈ slotPlaces holder kept, ∃ reference ∈ references kept,
        arena.locate holder reference.names = some place
  | .value _ _ _, _, _ => by
    rw [slotPlaces]
    exact fun _ h => absurd h List.not_mem_nil
  | .reference head target cardinality, _, _ => by
    intro place hplace
    rw [slotPlaces] at hplace
    obtain rfl := List.mem_singleton.1 hplace
    rw [references]
    exact ⟨_, List.mem_singleton_self _, rfl⟩
  | .shape head inList object embedded fields, hstands, hfield => by
    intro place hplace
    obtain ⟨field, hfield, htype⟩ := hfield
    obtain ⟨-, hobject⟩ :=
      isUnresolved_outputType_shape owner path head inList object embedded fields
    rw [← htype] at hobject
    rw [Stands] at hstands
    obtain ⟨type, hget, hfields⟩ := hstands
    rw [slotPlaces] at hplace
    obtain ⟨reference, href, hlocate⟩ := StandsAll.locate (Path.child path head.source)
      (.object object) fields type.fields hfields (fun name field h => by
        rw [Arena.fieldAt?, Arena.holder?, hget, Option.bind_some]
        exact h) place hplace
    rw [references]
    refine ⟨reference.below head.source, List.mem_map_of_mem href, ?_⟩
    obtain ⟨source, rest, -, htrail, -⟩ := hfields.found _ _ _ _ reference href
    rw [Reference.names, htrail, List.map_cons] at hlocate
    -- One step down leads into the object of the shape, and the rest of the way is known.
    have hat : arena.fieldAt? ⟨holder, Naming.sanitize head.source⟩ = some field := hfield
    rw [Reference.names, Reference.below, htrail, List.map_cons, List.map_cons, Arena.locate, hat,
      Option.bind_some, hobject]
    exact hlocate

/-- Every place of a slot is found from the root by the names on the way to its reference. -/
theorem StandsAll.locate (path : String) (holder : Holder) : (kept : List KeptField) →
    (done : OrderedMap String OutputField) → StandsAll owner path arena.objects kept done →
    (∀ name field, done.get? name = some field → arena.fieldAt? ⟨holder, name⟩ = some field) →
      ∀ place ∈ slotPlacesAll holder kept, ∃ reference ∈ referencesAll kept,
        arena.locate holder reference.names = some place
  | [], _, _, _ => by
    rw [slotPlacesAll]
    exact fun _ h => absurd h List.not_mem_nil
  | kept :: rest, done, hstands, hdone => by
    rw [StandsAll] at hstands
    obtain ⟨⟨field, hfield, htype⟩, hkept, hrest⟩ := hstands
    intro place hplace
    rw [slotPlacesAll] at hplace
    rw [referencesAll]
    rcases List.mem_append.1 hplace with hplace | hplace
    · obtain ⟨reference, href, hlocate⟩ :=
        Stands.locate path holder kept hkept ⟨field, hdone _ _ hfield, htype⟩ place hplace
      exact ⟨reference, List.mem_append_left _ href, hlocate⟩
    · obtain ⟨reference, href, hlocate⟩ :=
        StandsAll.locate path holder rest done hrest hdone place hplace
      exact ⟨reference, List.mem_append_right _ href, hlocate⟩

end

/-- A shape whose type is finished, whose fields use a vocabulary, and whose slots have places among
given ones. -/
structure ShapeStands (words : Vocabulary) (owner : String) (objects : OrderedMap String ObjectType)
    (places : List FieldPlace) (shape : KeptShape) : Prop where
  stands : ∃ path type, objects.get? shape.object = some type ∧
    StandsAll owner path objects shape.fields type.fields
  uses : UsesAll words shape.fields
  slots : ∀ place ∈ slotPlacesAll (.object shape.object) shape.fields, place ∈ places

theorem ShapeStands.mono {objects : OrderedMap String ObjectType} {places more : List FieldPlace}
    {shape : KeptShape} (h : ShapeStands words owner objects places shape)
    (hmore : ∀ place ∈ places, place ∈ more) : ShapeStands words owner objects more shape :=
  ⟨h.stands, h.uses, fun place hplace => hmore place (h.slots place hplace)⟩

mutual

theorem Stands.shapes {objects : OrderedMap String ObjectType} (path : String) (holder : Holder) :
    (kept : KeptField) → Stands owner path objects kept → Uses words kept →
      ∀ shape ∈ shapes kept, ShapeStands words owner objects (slotPlaces holder kept) shape
  | .value _ _ _, _, _ | .reference _ _ _, _, _ => by
    rw [KeptField.shapes]
    exact fun _ h => absurd h List.not_mem_nil
  | .shape head _ object embedded fields, hstands, huses => by
    rw [Stands] at hstands
    rw [Uses] at huses
    obtain ⟨type, hget, hfields⟩ := hstands
    rw [KeptField.shapes, slotPlaces]
    intro shape hshape
    rcases List.mem_append.1 hshape with hshape | hshape
    · exact StandsAll.shapes (Path.child path head.source) (.object object) fields type.fields hfields
        huses.2 shape hshape
    · obtain rfl := List.mem_singleton.1 hshape
      exact ⟨⟨_, type, hget, hfields⟩, huses.2, fun _ h => h⟩

/-- Every shape of fields that stand is finished, and its slots are among those of the fields. -/
theorem StandsAll.shapes {objects : OrderedMap String ObjectType} (path : String)
    (holder : Holder) : (kept : List KeptField) → (done : OrderedMap String OutputField) →
    StandsAll owner path objects kept done → UsesAll words kept →
      ∀ shape ∈ shapesAll kept, ShapeStands words owner objects (slotPlacesAll holder kept) shape
  | [], _, _, _ => by
    rw [shapesAll]
    exact fun _ h => absurd h List.not_mem_nil
  | kept :: rest, done, hstands, huses => by
    rw [StandsAll] at hstands
    rw [UsesAll] at huses
    rw [shapesAll, slotPlacesAll]
    intro shape hshape
    rcases List.mem_append.1 hshape with hshape | hshape
    · exact (Stands.shapes path holder kept hstands.2.1 huses.1 shape hshape).mono fun _ h =>
        List.mem_append_left _ h
    · exact (StandsAll.shapes path holder rest done hstands.2.2 huses.2 shape hshape).mono
        fun _ h => List.mem_append_right _ h

end

end Stands

end KeptField

namespace Run

variable (run : Run) (models : List ModelDecl)

/-- Whether an object type of a run has the name of an enum, a connection or an input. -/
def Ambiguous (name : String) : Prop :=
  name ∈ (run.kept models).flatMap KeptModel.objectNames ∧
    (name ∈ (run.kept models).flatMap KeptModel.enumNames ∨
      name ∈ (run.kept models).flatMap KeptModel.connectionNames ∨
        name ∈ (run.layOut models).inputs.keys)

/-- A run whose references have paths that read back, whose siblings, roots and object types have
different names, and no name is ambiguous. -/
structure Legible : Prop where
  paths : ∀ kept ∈ run.kept models, ∀ reference ∈ kept.references,
    Arena.outputPath (Path.joined reference.trail) = reference.names
  siblings : ∀ kept ∈ run.kept models, kept.SiblingsApart
  owners : (models.map fun model => Naming.sanitize model.name).Nodup
  objects : ((run.kept models).flatMap KeptModel.objectNames).Nodup
  unambiguous : ∀ name, ¬ run.Ambiguous models name

/-- A field of a root that is a slot is a kept one. -/
theorem exists_kept_of_root {owner : String} {root : ObjectType}
    (h : (run.layOut models).roots.get? owner = some root) :
    ∃ kept ∈ run.kept models, kept.owner = owner ∧ ∀ name field,
      root.fields.get? name = some field → field.type.isUnresolved = true →
        name ∈ kept.fields.map KeptField.name := by
  refine run.layOut_induct models (P := fun kept arena => ∀ owner root,
    arena.roots.get? owner = some root → ∃ model ∈ kept, model.owner = owner ∧ ∀ name field,
      root.fields.get? name = some field → field.type.isUnresolved = true →
        name ∈ model.fields.map KeptField.name) (fun _ _ h => by cases h) ?_ owner root h
  intro before arena model _ h owner root hroot
  let kept := ((model.keep run.settings).run arena.seen).1
  obtain ⟨-, houtlines⟩ := KeptField.writes_all kept.owner "" kept.fields ∅ arena
  rw [Arena.run_addModel_kept] at hroot
  change (arena.roots.insert kept.owner _).get? owner = some root at hroot
  rw [OrderedMap.get?_insert] at hroot
  split at hroot
  · next howner =>
    refine ⟨kept, List.mem_append_right _ (List.mem_singleton_self _), howner, ?_⟩
    obtain rfl := Option.some.inj hroot
    intro name field hfield hopen
    rcases Arena.get?_rootOf.1 hfield with hfield | ⟨-, -, rfl⟩
    · exact KeptField.mem_map_name_of_outlines houtlines hfield
    · cases hopen
  · obtain ⟨other, hother, hrest⟩ := h owner root hroot
    exact ⟨other, List.mem_append_left _ hother, hrest⟩

variable {run models}

/-- A run of well-named models that makes no type name twice is legible. -/
theorem legible_of_wellNamed (hnamed : ∀ model ∈ models, model.WellNamed run.settings)
    (hdistinct : (run.generatedNames models).Nodup) : run.Legible models where
  paths _ hkept _ href := outputPath_of_kept hnamed hkept href
  siblings kept hkept := by
    obtain ⟨model, hmodel, seen, rfl⟩ := exists_of_mem_mapM hkept
    exact (hnamed model hmodel).siblingsApart seen
  owners := (namesApart hdistinct).owners
  objects := (namesApart hdistinct).objects
  unambiguous name hname := by
    obtain ⟨-, henum, hconnection, hinput⟩ := (namesApart hdistinct).object_notMem name hname.1
    exact hname.2.elim henum fun h => h.elim hconnection hinput

/-- In a legible run every open place is that of a slot. -/
theorem Legible.placed (h : run.Legible models) {place : FieldPlace}
    (hopen : (run.layOut models).IsOpen place) :
    ∃ slot ∈ (run.layOut models).pending, (run.layOut models).placeOf slot = some place := by
  have hlaid := run.laidOut_of_siblingsApart models h.siblings h.owners h.objects
  -- An open field is a slot of a kept model: of its root, or of one of its shapes.
  obtain ⟨kept, hkept, hmem⟩ : ∃ kept ∈ run.kept models,
      place ∈ KeptField.slotPlacesAll (.root kept.owner) kept.fields := by
    obtain ⟨holder, name⟩ := place
    obtain ⟨field, hfield, hopen⟩ := hopen
    rw [Arena.fieldAt?] at hfield
    obtain ⟨type, htype, hfield⟩ := Option.bind_eq_some_iff.1 hfield
    cases holder with
    | root owner =>
      obtain ⟨kept, hkept, rfl, hnames⟩ := run.exists_kept_of_root models htype
      obtain ⟨first, hfirst, rfl⟩ := List.mem_map.1 (hnames name field hfield hopen)
      obtain ⟨root, hroot, hstands⟩ := hlaid.stands kept hkept
      obtain rfl : type = root := Option.some.inj (htype.symm.trans hroot)
      exact ⟨kept, hkept, hstands.mem_slotPlacesAll _ (run.usesAll_words models hkept) hfirst hfield
        hopen⟩
    | object object =>
      obtain ⟨shape, hshape, houtline⟩ := Option.map_eq_some_iff.1 ((run.holds models).outline htype)
      obtain rfl : shape.object = object := by simpa using List.find?_some hshape
      obtain ⟨kept, hkept, hmem⟩ :=
        List.mem_flatMap.1 (List.mem_reverse.1 (List.mem_of_find?_eq_some hshape))
      obtain ⟨root, -, hstands⟩ := hlaid.stands kept hkept
      obtain ⟨⟨path, type', hget, hfields⟩, huses, hslots⟩ := hstands.shapes "" (.root kept.owner)
        kept.fields root.fields (run.usesAll_words models hkept) shape hmem
      obtain rfl : type = type' := Option.some.inj (htype.symm.trans hget)
      obtain ⟨first, hfirst, rfl⟩ := List.mem_map.1 (KeptField.mem_map_name_of_outlines
        (congrArg ObjectOutline.fields houtline.symm) hfield)
      exact ⟨kept, hkept, hslots _ (hfields.mem_slotPlacesAll _ huses hfirst hfield hopen)⟩
  obtain ⟨root, hroot, hstands⟩ := hlaid.stands kept hkept
  -- Such a slot is found along its path, which reads back.
  obtain ⟨reference, href, hlocate⟩ := hstands.locate "" (.root kept.owner) kept.fields root.fields
    (fun name field hget => by rw [Arena.fieldAt?, Arena.holder?, hroot]; exact hget) place hmem
  refine ⟨reference.slot kept.owner "", ?_, ?_⟩
  · rw [hlaid.pending]
    exact List.mem_flatMap.2 ⟨kept, hkept, List.mem_map_of_mem href⟩
  · rw [Arena.placeOf]
    exact (congrArg _ (h.paths kept hkept reference href)).trans hlocate

/-- In a legible run no slot is left. -/
theorem Legible.closed (h : run.Legible models) (place : FieldPlace) :
    ¬ (run.layOut models).settled.IsOpen place := by
  have hlaid := run.laidOut_of_siblingsApart models h.siblings h.owners h.objects
  have hsettling := Arena.settling_settled (hlaid.waiting h.paths)
  rintro ⟨field, hfield, hopen⟩
  by_cases hplace : ∃ slot ∈ (run.layOut models).pending,
      (run.layOut models).placeOf slot = some place
  · obtain ⟨slot, hslot, hplaceOf⟩ := hplace
    obtain ⟨place', field', hplaceOf', hfield', htype⟩ := hsettling.resolved slot hslot hslot
    obtain rfl : place = place' := Option.some.inj (hplaceOf.symm.trans hplaceOf')
    obtain rfl : field = field' := Option.some.inj (hfield.symm.trans hfield')
    rw [htype, Arena.isUnresolved_resolvedType] at hopen
    cases hopen
  · have hfree : ∀ slot ∈ (run.layOut models).pending,
        (run.layOut models).placeOf slot ≠ some place := fun slot hslot heq => hplace ⟨slot, hslot, heq⟩
    rw [hsettling.untouched place hfree] at hfield
    obtain ⟨slot, hslot, hplaceOf⟩ := h.placed ⟨field, hfield, hopen⟩
    exact hplace ⟨slot, hslot, hplaceOf⟩

/-! ### Errors -/

end Run

namespace TypeGraph

/-- A field is refused for a slot, a name that it mentions in vain, or an argument. -/
theorem checkField_eq_error {graph : TypeGraph} {owner : String} {field : OutputField}
    {error : SynthError} (h : graph.checkField owner field = .error error) :
    (∃ slot, field.type.innermost = .unresolved slot ∧
      error = .unresolvedReference slot.owner slot.path) ∨
    (∃ name, graph.danglingType? field.type.innermost = some name ∧
      error = .unknownTarget owner field.name name) ∨
    ∃ arg ∈ field.args, graph.isInputName arg.type.innermost = false := by
  rw [checkField] at h
  cases hdangling : graph.danglingType? field.type.innermost with
  | some name =>
    cases hcore : field.type.innermost with
    | unresolved slot =>
      rw [hcore] at h
      cases h
      exact .inl ⟨slot, rfl, rfl⟩
    | scalar _ | enum _ | object _ | connection _ | list _ | nonNull _ =>
      rw [hcore] at h hdangling
      refine .inr (.inl ⟨name, rfl, ?_⟩)
      simp only [hdangling] at h
      cases h
      rfl
  | none =>
    cases hcore : field.type.innermost with
    | unresolved slot =>
      rw [hcore] at h
      cases h
      exact .inl ⟨slot, rfl, rfl⟩
    | scalar _ | enum _ | object _ | connection _ | list _ | nonNull _ =>
      rw [hcore] at h hdangling
      simp only [hdangling] at h
      cases harg : field.args.find? fun arg => !graph.isInputName arg.type.innermost with
      | some arg =>
        exact .inr (.inr ⟨arg, List.mem_of_find?_eq_some harg, by simpa using List.find?_some harg⟩)
      | none =>
        simp only [harg] at h
        cases h

end TypeGraph

namespace Run

variable {run : Run} {models : List ModelDecl}

/-- When all targets are known, only names of object types are mentioned in vain, and only those that
types of other kinds have too. -/
theorem ambiguous_of_dangling (htargets : ∀ slot ∈ (run.layOut models).pending,
      slot.target ∈ models.map ModelDecl.name) {type : FieldType}
    (huses : type.Uses (run.words models)) {name : String}
    (h : (run.graphOf models (run.layOut models).settled).danglingType? type.innermost = some name) :
    run.Ambiguous models name := by
  have hroot : ∀ target ∈ models.map ModelDecl.name,
      ((run.graphOf models (run.layOut models).settled).object? (Naming.sanitize target)).isSome :=
    fun target htarget =>
      TypeGraph.isSome_object?_iff.2 (.inl (run.isSome_model?_graphOf models htarget))
  rw [(run.holds models).pending] at htargets
  rw [FieldType.Uses] at huses
  cases hcore : type.innermost with
  | object object =>
    rw [hcore] at h huses
    have hnone : (run.graphOf models (run.layOut models).settled).object? object = none ∧
        object = name := by
      simpa [TypeGraph.danglingType?] using h
    obtain ⟨hnone, rfl⟩ := hnone
    rcases huses with hobject | ⟨slot, hslot, rfl⟩
    · refine ⟨hobject, ?_⟩
      -- A name that only object types have finds the last one of them.
      by_contra hfree
      rw [not_or, not_or] at hfree
      by_cases hmodel : object ∈ models.map fun model => Naming.sanitize model.name
      · obtain ⟨model, hmem, rfl⟩ := List.mem_map.1 hmodel
        have hfound := hroot model.name (List.mem_map_of_mem hmem)
        rw [hnone] at hfound
        cases hfound
      · obtain ⟨found, hfound⟩ :=
          run.exists_object?_graphOf models hobject hmodel hfree.1 hfree.2.1 hfree.2.2
        rw [hnone] at hfound
        cases hfound
    · have hfound := hroot slot.target (htargets slot hslot)
      rw [hnone] at hfound
      cases hfound
  | enum enum =>
    rw [hcore] at h huses
    obtain ⟨found, hget⟩ := OrderedMap.mem_keys_iff.1 ((run.holds models).mem_enums.2 huses)
    rw [TypeGraph.danglingType?_enum.2 (by rw [run.enum?_graphOf, hget]; rfl)] at h
    cases h
  | connection connection =>
    rw [hcore] at h huses
    obtain ⟨found, hget⟩ := run.exists_connection_of_mem models huses
    obtain ⟨slot, hslot, -, rfl, -⟩ := run.exists_slot_of_connection models hget
    rw [TypeGraph.danglingType?_connection.2
      ⟨_, (run.connection?_graphOf models _).trans hget,
        run.isSome_model?_graphOf models (htargets slot hslot)⟩] at h
    cases h
  | scalar _ | list _ | nonNull _ | unresolved _ =>
    rw [hcore] at h
    cases h

/-- When all targets are known, a graph is refused for a slot that is left, or for the name of an
object type that a type of another kind has too. -/
theorem exists_of_validate_eq_error (htargets : ∀ slot ∈ (run.layOut models).pending,
      slot.target ∈ models.map ModelDecl.name) {error : SynthError}
    (h : (run.graphOf models (run.layOut models).settled).validate = .error error) :
    (∃ place, (run.layOut models).settled.IsOpen place) ∧
        (∃ owner path, error = .unresolvedReference owner path) ∨
      ∃ owner field name, run.Ambiguous models name ∧ error = .unknownTarget owner field name := by
  obtain ⟨type, htype, hfields⟩ := exists_of_forM_eq_error h
  obtain ⟨field, hfield, hcheck⟩ := exists_of_forM_eq_error hfields
  obtain ⟨holder, hholder⟩ := run.exists_holder_of_mem_objects models htype
  obtain ⟨key, hget⟩ := OrderedMap.mem_values_iff.1 hfield
  have hat : (run.layOut models).settled.fieldAt? ⟨holder, key⟩ = some field := by
    rw [Arena.fieldAt?, hholder]
    exact hget
  have huses := run.speaks models ⟨holder, key⟩ field hat
  rcases TypeGraph.checkField_eq_error hcheck with ⟨slot, hcore, rfl⟩ | ⟨name, hname, rfl⟩ |
    ⟨arg, harg, hinput⟩
  · refine .inl ⟨⟨⟨holder, key⟩, field, hat, ?_⟩, _, _, rfl⟩
    rw [FieldType.isUnresolved, hcore]
  · exact .inr ⟨_, _, name, ambiguous_of_dangling htargets huses.type hname, rfl⟩
  · have hmirrors : arg.type.Uses (run.words models) (run.layOut models).inputs :=
      (Arena.settled_frame (run.layOut models)).2.2.2 ▸ huses.args arg harg
    rw [run.isInputName_of_uses models hmirrors] at hinput
    cases hinput

/-- The slots of a run are left behind in the order of its visible references. -/
theorem pending_layOut (run : Run) (models : List ModelDecl) : (run.layOut models).pending =
    (run.references models).map fun entry => entry.2.slot entry.1 "" := by
  rw [(run.holds models).pending, references_eq, List.map_flatMap]
  exact List.flatMap_congr fun kept _ => by rw [List.map_map]; rfl

/-- When no key repeats and all targets are known, a run fails for slots and names only. -/
theorem synthesize_of_listed (hkeys : checkKeys [] models = .ok ())
    (htargets : ∀ slot ∈ (run.layOut models).pending, slot.target ∈ models.map ModelDecl.name) :
    run.synthesize models = (do
      (run.layOut models).settled.checkResolved
      (run.graphOf models (run.layOut models).settled).validate
      pure (run.graphOf models (run.layOut models).settled)) := by
  rw [synthesize_eq, hkeys, Arena.resolve_eq_ok_iff.2 ⟨htargets, rfl⟩]
  rfl

/-- A legible run with known targets succeeds. -/
theorem Legible.exists_graph (h : run.Legible models) (hkeys : checkKeys [] models = .ok ())
    (htargets : ∀ slot ∈ (run.layOut models).pending, slot.target ∈ models.map ModelDecl.name) :
    ∃ graph, run.synthesize models = .ok graph := by
  have hvalid : (run.graphOf models (run.layOut models).settled).validate = .ok () := by
    cases hvalidate : (run.graphOf models (run.layOut models).settled).validate with
    | ok => rfl
    | error error =>
      rcases exists_of_validate_eq_error htargets hvalidate with ⟨⟨place, hopen⟩, -⟩ |
        ⟨-, -, name, hname, -⟩
      · exact absurd hopen (h.closed place)
      · exact absurd hname (h.unambiguous name)
  rw [synthesize_of_listed hkeys htargets, Arena.checkResolved_eq_ok_iff.2 h.closed, hvalid]
  exact ⟨_, rfl⟩

/-- When all targets are known, a run fails for a slot that is left, or for an ambiguous name. -/
theorem exists_of_synthesize_eq_error (hkeys : checkKeys [] models = .ok ())
    (htargets : ∀ slot ∈ (run.layOut models).pending, slot.target ∈ models.map ModelDecl.name)
    {error : SynthError} (h : run.synthesize models = .error error) :
    (∃ owner path, error = .unresolvedReference owner path) ∨
      ∃ owner field name, run.Ambiguous models name ∧ error = .unknownTarget owner field name := by
  rw [synthesize_of_listed hkeys htargets] at h
  cases hresolved : (run.layOut models).settled.checkResolved with
  | error refused =>
    rw [hresolved] at h
    cases h
    obtain ⟨type, -, hcheck⟩ := exists_of_forM_eq_error hresolved
    cases hfield : Arena.unresolvedField? type with
    | none =>
      rw [hfield] at hcheck
      cases hcheck
    | some field =>
      rw [hfield] at hcheck
      cases hcheck
      exact .inl ⟨_, _, rfl⟩
  | ok =>
    rw [hresolved] at h
    cases hvalidate : (run.graphOf models (run.layOut models).settled).validate with
    | error refused =>
      rw [hvalidate] at h
      cases h
      exact (exists_of_validate_eq_error htargets hvalidate).imp_left And.right
    | ok =>
      rw [hvalidate] at h
      cases h

/-- A run fails for the first key that occurs before; when there is none, for the first visible
reference whose target is not the name of a model. Otherwise it succeeds if it is legible, and can
only fail for a slot that is left or for an ambiguous name. -/
theorem synthesize_outcome (run : Run) (models : List ModelDecl) :
    (∀ before model after, models = before ++ model :: after →
      (before.map ModelDecl.key).Nodup → model.key ∈ before.map ModelDecl.key →
        run.synthesize models = .error (.duplicateModel model.key)) ∧
    ((models.map ModelDecl.key).Nodup →
      (∀ owner reference, ((run.references models).find? fun entry =>
          entry.2.target ∉ models.map ModelDecl.name) = some (owner, reference) →
        run.synthesize models =
          .error (.unknownTarget owner (Path.joined reference.trail) reference.target)) ∧
      ((∀ entry ∈ run.references models, entry.2.target ∈ models.map ModelDecl.name) →
        (run.Legible models → ∃ graph, run.synthesize models = .ok graph) ∧
        ∀ error, run.synthesize models = .error error →
          (∃ owner path, error = .unresolvedReference owner path) ∨
            ∃ owner field name, run.Ambiguous models name ∧
              error = .unknownTarget owner field name)) := by
  refine ⟨?_, fun hnodup => ⟨fun owner reference hfirst => ?_, fun hlisted => ?_⟩⟩
  · rintro before model after rfl hnodup hkey
    rw [synthesize_eq, checkKeys_of_repeated (fun _ _ => List.not_mem_nil) hnodup (.inr hkey)]
    rfl
  · have hkeys := checkKeys_eq_ok (fun _ _ => List.not_mem_nil) hnodup
    have hslot : ((run.layOut models).pending.find? fun slot =>
        slot.target ∉ models.map ModelDecl.name) = some (reference.slot owner "") := by
      rw [pending_layOut, List.find?_map]
      exact congrArg (Option.map _) hfirst
    rw [synthesize_eq, hkeys, Arena.resolve_of_find? hslot]
    rfl
  · have hkeys := checkKeys_eq_ok (fun _ _ => List.not_mem_nil) hnodup
    have htargets : ∀ slot ∈ (run.layOut models).pending,
        slot.target ∈ models.map ModelDecl.name := by
      rw [pending_layOut]
      intro slot hslot
      obtain ⟨entry, hentry, rfl⟩ := List.mem_map.1 hslot
      exact hlisted entry hentry
    exact ⟨fun h => h.exists_graph hkeys htargets,
      fun error => exists_of_synthesize_eq_error hkeys htargets⟩

end Run

theorem Run.outcome_author_city : (Run.mk {} ⟨0⟩ 0).Legible [.author, .city] ∧
    ∃ graph, (Run.mk {} ⟨0⟩ 0).synthesize [.author, .city] = .ok graph := by
  have hlegible : (Run.mk {} ⟨0⟩ 0).Legible [.author, .city] :=
    legible_of_wellNamed (by decide +kernel) (by decide +kernel)
  exact ⟨hlegible, ((synthesize_outcome _ _).2 (by decide +kernel)).2 (by decide +kernel) |>.1
    hlegible⟩

namespace ModelDecl

/-- A model with a dot in the name of a reference. -/
def dotted : ModelDecl where
  key := "nodes"
  name := "node"
  fields := [.reference "a.b" "node"]

/-- A model with a nested shape whose type has the name of the mirror of another one. -/
def mirrored : ModelDecl where
  key := "houses"
  name := "house"
  fields := [.list "room" (.nested [.scalar "size" .number]),
    .nested "roomInput" [.scalar "text" .string]]

end ModelDecl

/-- Declared names can make a run fail although no key repeats and all targets are known: a dot leaves
a slot behind, and a mirror can hide an object type. -/
theorem Run.synthesize_dotted_mirrored :
    (Run.mk {} ⟨0⟩ 0).references [.dotted] = [("node", ⟨["a.b"], "node", .single, false⟩)] ∧
      (Run.mk {} ⟨0⟩ 0).synthesize [.dotted] = .error (.unresolvedReference "node" "a_b") ∧
      (Run.mk {} ⟨0⟩ 0).references [.mirrored] = [] ∧
      (Run.mk {} ⟨0⟩ 0).synthesize [.mirrored] =
        .error (.unknownTarget "house" "roomInput" "houseRoomInput") := by
  decide +kernel

end ModelGraph
