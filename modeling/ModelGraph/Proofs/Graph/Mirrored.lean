import ModelGraph.Proofs.Graph.Reflect

/-!
# The mirrors of a graph

The lists of nested and embedded objects in a graph take arguments that are typed by the mirrors of
these objects, and a mirror matches each field of its object as it is. Only embedded shapes that
contain themselves are different: a field that leads back to a shape around it is built before this
shape is finished. Resolving slots changes neither, since it puts no list and no nested object in
the place of a slot.

When two shapes have one name, the mirror may be that of the one that is overwritten.

## Main definitions

- `FieldType.inputNamed` — the input of a type whose innermost values have an input of a name
- `TypeGraph.Lists` — a field with the arguments of a list of objects
- `Run.Matches` — what stands in a mirror for a field

## Main statements

- `Run.mirrors_of_synthesize` — the arguments of lists and the mirrors of objects in a graph
-/

namespace ModelGraph

/-! ### Inputs of types -/

theorem OutputScalar.eq_id_of_name {kind : OutputScalar}
    (h : kind.name = OutputScalar.id.name) : kind = .id := by
  cases kind <;> first | rfl | exact absurd h (by decide)

namespace FieldType

/-- The input of a type whose innermost values are matched by the input of a name. -/
def inputNamed (name : String) : FieldType → ArgType
  | .list element => .list (inputNamed name element)
  | .nonNull inner => inputNamed name inner
  | _ => .named name

theorem innermost_inputNamed (name : String) (type : FieldType) :
    (type.inputNamed name).innermost = name := by
  induction type with
  | list element ih => exact ih
  | nonNull inner ih => exact ih
  | scalar | enum | object | connection | unresolved => rfl

theorem input_of_leaf? {objects : OrderedMap String ObjectType} {type : FieldType} {leaf : String}
    (h : type.leaf? = some leaf) : type.input objects = type.inputNamed leaf := by
  induction type with
  | list element ih => exact congrArg ArgType.list (ih h)
  | nonNull inner ih => exact ih h
  | scalar | enum =>
    cases h
    rfl
  | object | connection | unresolved => cases h

theorem input_of_object {objects : OrderedMap String ObjectType} {type : FieldType}
    {object : String} (h : type.innermost = .object object) :
    type.input objects = type.inputNamed
      (if objects.contains object then Naming.inputType object else OutputScalar.id.name) := by
  induction type with
  | list element ih => exact congrArg ArgType.list (ih h)
  | nonNull inner ih => exact ih h
  | object =>
    cases h
    rfl
  | scalar | enum | connection | unresolved => cases h

/-- An id matches ids, connections, and objects that are not known. -/
theorem eq_id_of_input {objects : OrderedMap String ObjectType} {type : FieldType}
    (hclosed : type.isUnresolved = false)
    (henums : ∀ name, type.innermost = .enum name → name ≠ OutputScalar.id.name)
    (h : (type.input objects).innermost = OutputScalar.id.name) :
    type.innermost = .scalar .id ∨ (∃ connection, type.innermost = .connection connection) ∨
      ∃ inner, type.innermost = .object inner ∧ inner ∉ objects.keys := by
  rcases type.innermost_cases with
    ⟨kind, hkind⟩ | ⟨name, hname⟩ | ⟨inner, hinner⟩ | hconnection | hopen
  · have hleaf : type.leaf? = some kind.name := by rw [leaf?, hkind]
    rw [input_of_leaf? hleaf, innermost_inputNamed] at h
    rw [hkind, OutputScalar.eq_id_of_name h]
    exact .inl rfl
  · have hleaf : type.leaf? = some name := by rw [leaf?, hname]
    rw [input_of_leaf? hleaf, innermost_inputNamed] at h
    exact absurd h (henums name hname)
  · refine .inr (.inr ⟨inner, hinner, fun hmem => ?_⟩)
    have hbuiltIn : Arguments.isBuiltIn (Naming.inputType inner) = false :=
      Arguments.isBuiltIn_append (by decide) _
    rw [input_of_object hinner, if_pos (OrderedMap.contains_iff.2 hmem),
      innermost_inputNamed] at h
    rw [h, Arguments.isBuiltIn_scalar] at hbuiltIn
    cases hbuiltIn
  · exact .inr (.inl hconnection)
  · rw [hclosed] at hopen
    cases hopen

end FieldType

/-! ### Resolved fields -/

namespace Arena

/-- Slots that lead to a place are among those that are resolved. -/
theorem slotsAt_subset (place : FieldPlace) (arena : Arena) (slots : List ReferenceSlot) :
    slotsAt place arena slots ⊆ slots := by
  induction slots generalizing arena with
  | nil => exact List.Subset.refl _
  | cons slot rest ih =>
    rw [slotsAt]
    split
    · exact List.cons_subset_cons slot (ih _)
    · exact List.Subset.trans (ih _) (List.subset_cons_self ..)

theorem listedObject?_resolvedType (slot : ReferenceSlot) (node : String) :
    (resolvedType slot node).listedObject? = none := by
  rw [resolvedType]
  cases slot.cardinality with
  | single => cases slot.nonNull <;> rfl
  | plural => rfl

end Arena

/-- Whether a field has the arguments of a list of objects, which are typed by the mirror of
these. -/
def TypeGraph.Lists (graph : TypeGraph) (object : String) (field : OutputField) : Prop :=
  field.args = Arguments.array (some (Naming.inputType object)) ∧
    (graph.input? (Naming.inputType object)).isSome

namespace Run

variable {run : Run} {models : List ModelDecl} {graph : TypeGraph}

/-- Resolving leaves the arguments of a field, and its type or the output of a target. -/
theorem exists_laidOut_field (run : Run) (models : List ModelDecl) (place : FieldPlace)
    {field : OutputField} (h : (run.layOut models).settled.fieldAt? place = some field) :
    ∃ old, (run.layOut models).fieldAt? place = some old ∧ field.args = old.args ∧
      (field.type = old.type ∨ ∃ slot ∈ (run.layOut models).pending,
        field.type = Arena.resolvedType slot (Naming.sanitize slot.target)) := by
  obtain ⟨old, hold, rfl⟩ := Option.map_eq_some_iff.1
    ((Arena.fieldAt?_settleAll _ _ place).symm.trans h)
  refine ⟨old, hold, rfl, ?_⟩
  dsimp only
  rw [FieldType.resolvedBy]
  cases hlast : (Arena.slotsAt place { run.layOut models with pending := [] }
      (run.layOut models).pending).getLast? with
  | none => exact .inl rfl
  | some slot =>
    exact .inr ⟨slot, Arena.slotsAt_subset _ _ _ (List.mem_of_getLast? hlast), rfl⟩

/-- A model of a graph is a root of the run. -/
theorem holder?_of_model? {arena : Arena} {name : String} {root : ObjectType}
    (h : (run.graphOf models arena).model? name = some root) :
    arena.holder? (.root name) = some root := by
  by_cases hname : name ∈ models.map fun model => Naming.sanitize model.name
  · rwa [run.model?_graphOf models arena hname] at h
  · rw [run.model?_graphOf_of_notMem models arena hname] at h
    cases h

/-! ### The first phase -/

/-- The first phase leaves mirrors that reflect their objects, and roots with all the arguments that
their lists can have. -/
theorem reflecting_layOut (run : Run) (models : List ModelDecl) :
    Arena.Reflecting (run.shapes models) (run.shapes models) (run.layOut models).objects
        (run.layOut models).inputs ∧
      ∀ name root, (run.layOut models).roots.get? name = some root →
        ∀ key field, root.fields.get? key = some field →
          field.Aware (run.layOut models).objects (run.layOut models).inputs (fun _ => False)
            (fun _ => False) key := by
  have hall := run.layOut_induct models (P := fun kept arena => ∀ all : List KeptShape,
    (kept.flatMap KeptModel.shapes).Sublist all →
      Arena.Reflecting all (kept.flatMap KeptModel.shapes) arena.objects arena.inputs ∧
        KeptField.Covered arena.objects.keys arena.seen ∧
          ∀ name root, arena.roots.get? name = some root →
            ∀ key field, root.fields.get? key = some field →
              field.Aware arena.objects arena.inputs (fun _ => False) (fun _ => False) key)
    (fun all _ => ⟨.empty all, fun _ h => (by cases h), fun _ _ h => by cases h⟩) ?_
    (run.shapes models) (List.Sublist.refl _)
  · exact ⟨hall.1, hall.2.2⟩
  intro before arena model _ ih all hsub
  let kept := (model.keep run.settings).run arena.seen
  let built := (KeptField.buildAll kept.1.owner "" kept.1.fields ∅).run arena
  rw [List.flatMap_append, List.flatMap_singleton] at hsub ⊢
  obtain ⟨hreflecting, hcovered, hroots⟩ := ih all ((List.sublist_append_left ..).trans hsub)
  have hsite : Arena.Site all (before.flatMap KeptModel.shapes)
      (KeptField.shapesAll kept.1.fields ++ []) arena.objects.keys (fun _ => False) arena.objects
      arena.inputs := by
    rw [List.append_nil]
    exact ⟨hreflecting, hsub, fun name hname => .inl hname, fun _ h => h.elim⟩
  have horderly : KeptField.OrderlyAll arena.objects.keys kept.1.fields :=
    KeptField.orderlyAll_keepAll _ model.ownFields _ arena.seen hcovered
  obtain ⟨hbuilt, hfields, hstay⟩ := KeptField.site_buildAll kept.1.owner "" kept.1.fields
    horderly ∅ arena hsite fun key field hfield => by cases hfield
  have hkeys := hreflecting.keys_subset hbuilt.reflecting
  rw [Arena.run_addModel_kept]
  refine ⟨hbuilt.reflecting, ?_, fun name root hget key field hfield => ?_⟩
  · refine (hcovered.keeps (KeptField.keeps_keepAll _ model.ownFields arena.seen)).mono
      fun name hname => ?_
    rcases List.mem_append.1 hname with hname | hname
    · exact hkeys name hname
    · refine (hbuilt.reflecting.keys name).2 ?_
      rw [List.map_append, KeptField.map_object_shapesAll]
      exact List.mem_append_right _ hname
  · change (arena.roots.insert kept.1.owner _).get? name = some root at hget
    rw [OrderedMap.get?_insert] at hget
    split at hget
    · obtain rfl := Option.some.inj hget
      rcases Arena.get?_rootOf.1 hfield with hfield | ⟨-, rfl, rfl⟩
      · exact (hfields key field hfield).imp (fun _ hback => hback) fun _ hlate => hlate.elim
      · exact ⟨rfl, trivial, fun _ hlisted => by cases hlisted⟩
    · exact (hroots name root hget key field hfield).grow hkeys hstay

/-! ### The graph -/

/-- What stands in the mirror of an object for a field of a type. Scalars and enum items are matched
as they are, and a nested or embedded object by its own mirror, unless it encloses the object. An id
matches ids and references, and nothing else but what encloses the object. -/
structure Matches (run : Run) (models : List ModelDecl) (object : String) (type : FieldType)
    (entry : ArgType) : Prop where
  leaf : ∀ leaf, type.leaf? = some leaf → entry = type.inputNamed leaf
  inner : ∀ inner, type.innermost = .object inner →
    inner ∉ models.map (fun model => Naming.sanitize model.name) →
      ¬ KeptShape.Encloses (run.shapes models) inner object →
        entry = type.inputNamed (Naming.inputType inner)
  ids : entry.innermost = OutputScalar.id.name → type.innermost = .scalar .id ∨
    (∃ model ∈ models, type.innermost = .object (Naming.sanitize model.name)) ∨
    (∃ connection, type.innermost = .connection connection) ∨
    ∃ inner, type.innermost = .object inner ∧ KeptShape.Encloses (run.shapes models) inner object

/-- The output of a target is no list, has no leaves, and refers to a model. -/
theorem resolvedType_refers {slot : ReferenceSlot}
    (htarget : slot.target ∈ models.map ModelDecl.name) :
    let type := Arena.resolvedType slot (Naming.sanitize slot.target)
    (∃ model ∈ models, type.innermost = .object (Naming.sanitize model.name)) ∨
      ∃ connection, type.innermost = .connection connection := by
  obtain ⟨model, hmodel, hname⟩ := List.mem_map.1 htarget
  dsimp only
  rw [innermost_resolvedType, ← hname]
  cases slot.cardinality with
  | single => exact .inl ⟨model, hmodel, rfl⟩
  | plural => exact .inr ⟨_, rfl⟩

/-- No enum of a run is called like the scalar of ids. -/
theorem ne_id_of_enum (place : FieldPlace) {field : OutputField}
    (hfield : (run.layOut models).settled.fieldAt? place = some field) {name : String}
    (h : field.type.innermost = .enum name) : name ≠ OutputScalar.id.name := by
  have huses := (run.speaks models place field hfield).type
  rw [FieldType.Uses, h] at huses
  obtain ⟨parent, child, rfl⟩ := exists_enumType huses
  have hbuiltIn : Arguments.isBuiltIn (Naming.enumType parent child) = false :=
    Arguments.isBuiltIn_append (by decide) _
  intro hid
  rw [hid, Arguments.isBuiltIn_scalar] at hbuiltIn
  cases hbuiltIn

/-- An input of the first phase matches a field after all slots are resolved. -/
theorem matches_input {object : String} {field old : OutputField}
    {known : OrderedMap String ObjectType}
    (htargets : ∀ slot ∈ (run.layOut models).pending, slot.target ∈ models.map ModelDecl.name)
    (hclosed : field.type.isUnresolved = false)
    (henums : ∀ name, field.type.innermost = .enum name → name ≠ OutputScalar.id.name)
    (hsettled : field.type = old.type ∨ ∃ slot ∈ (run.layOut models).pending,
      field.type = Arena.resolvedType slot (Naming.sanitize slot.target))
    (hknown : old.type.Uses (.ofObjects fun inner =>
      inner ∈ known.keys ∨ KeptShape.Encloses (run.shapes models) inner object)) :
    run.Matches models object field.type (old.type.input known) := by
  rcases hsettled with hsame | ⟨slot, hslot, hresolved⟩
  · rw [← hsame] at hknown ⊢
    refine ⟨fun leaf hleaf => FieldType.input_of_leaf? hleaf, fun inner hinner _ hinside => ?_,
      fun hid => ?_⟩
    · rw [FieldType.Uses, hinner] at hknown
      rw [FieldType.input_of_object hinner,
        if_pos (OrderedMap.contains_iff.2 (hknown.resolve_right hinside))]
    · rcases FieldType.eq_id_of_input hclosed henums hid with
        hscalar | hconnection | ⟨inner, hinner, hunknown⟩
      · exact .inl hscalar
      · exact .inr (.inr (.inl hconnection))
      · rw [FieldType.Uses, hinner] at hknown
        exact .inr (.inr (.inr ⟨inner, hinner, hknown.resolve_left hunknown⟩))
  · have hrefers := resolvedType_refers (htargets slot hslot)
    rw [← hresolved] at hrefers
    refine ⟨fun leaf hleaf => ?_, fun inner hinner hmodel => ?_,
      fun _ => .inr (hrefers.imp_right .inl)⟩
    · rw [hresolved, Arena.leaf?_resolvedType] at hleaf
      cases hleaf
    · rcases hrefers with ⟨model, hmem, hobject⟩ | ⟨connection, hconnection⟩
      · rw [hinner] at hobject
        exact absurd (List.mem_map.2 ⟨model, hmem, (FieldType.object.inj hobject).symm⟩) hmodel
      · rw [hinner] at hconnection
        cases hconnection

/-- A list of objects has the arguments in the graph that it was built with. -/
theorem lists_of_aware {back late : String → Prop} {key : String} {field old : OutputField}
    (hold : old.Aware (run.layOut models).objects (run.layOut models).inputs back late key)
    (hargs : field.args = old.args)
    (hsettled : field.type = old.type ∨ ∃ slot ∈ (run.layOut models).pending,
      field.type = Arena.resolvedType slot (Naming.sanitize slot.target))
    {object : String} (hlisted : field.type.listedObject? = some object) :
    ((run.graphOf models (run.layOut models).settled).Lists object field ∧ ¬ late object) ∨
      (field.args = Arguments.array none ∧ back object) := by
  rcases hsettled with hsame | ⟨slot, -, hresolved⟩
  · rw [hsame] at hlisted
    refine (hold.listed object hlisted).imp (fun ⟨hgiven, hmirror, hearly⟩ => ?_)
      (And.imp_left hargs.trans)
    obtain ⟨mirror, hmirror⟩ := OrderedMap.mem_keys_iff.1 hmirror
    refine ⟨⟨hargs.trans hgiven, ?_⟩, hearly⟩
    rw [run.input?_graphOf, hmirror]
    rfl
  · rw [hresolved, Arena.listedObject?_resolvedType] at hlisted
    cases hlisted

/-- In the graph of a run that succeeds, a list of nested or embedded objects takes `all`, `size`
and `elemMatch`, typed by the mirror of these, unless it belongs to one of these objects or to a
shape within it: it is built before the object is finished then, and takes `size` only, which is
certain when no other shapes have the names. The mirror of an object whose name no other shape has
matches all its fields as they are. -/
theorem mirrors_of_synthesize (h : run.synthesize models = .ok graph) :
    (∀ name root, graph.model? name = some root → ∀ key field, root.fields.get? key = some field →
      ∀ object, field.type.listedObject? = some object → graph.Lists object field) ∧
    ∀ name type, graph.type? name = some (.object type) →
      (∀ key field, type.fields.get? key = some field →
        ∀ object, field.type.listedObject? = some object →
          (graph.Lists object field ∨ field.args = Arguments.array none ∧
            KeptShape.Encloses (run.shapes models) object name) ∧
          (KeptShape.Surrounds (run.shapes models) object name →
            field.args = Arguments.array none)) ∧
      (KeptShape.Once (run.shapes models) name →
        ∀ mirror, graph.input? (Naming.inputType name) = some mirror →
          ∀ key field, type.fields.get? key = some field →
            ∃ entry, mirror.fields.get? key = some entry ∧
              run.Matches models name field.type entry) := by
  obtain ⟨-, arena, hresolve, -, hvalid, rfl⟩ := synthesize_eq_ok_iff.1 h
  obtain ⟨htargets, rfl⟩ := Arena.resolve_eq_ok_iff.1 hresolve
  obtain ⟨hreflecting, hroots⟩ := run.reflecting_layOut models
  rw [TypeGraph.validate_eq_ok_iff] at hvalid
  simp only [TypeGraph.checkField_eq_ok_iff] at hvalid
  refine ⟨fun name root hmodel key field hfield object hlisted => ?_, fun name type hget => ?_⟩
  · have hroot := run.holder?_of_model? hmodel
    obtain ⟨old, hold, hargs, hsettled⟩ := exists_laidOut_field run models
      ⟨.root name, key⟩ (Option.bind_eq_some_iff.2 ⟨root, hroot, hfield⟩)
    obtain ⟨first, hfirst, hold⟩ := Option.bind_eq_some_iff.1 hold
    exact ((lists_of_aware (hroots name first hfirst key old hold) hargs hsettled
      hlisted).resolve_right fun h => h.2).1
  · have hmem : type ∈ (run.graphOf models (run.layOut models).settled).objects :=
      TypeGraph.mem_objects_iff.2 (.inr (TypeGraph.mem_namedTypes_iff.2 ⟨name, hget⟩))
    rw [run.type?_graphOf] at hget
    have hobject := Arena.get?_objects_of_namedTypes hget
    have hbefore : ∀ key field, type.fields.get? key = some field → ∃ first old,
        (run.layOut models).objects.get? name = some first ∧
          first.fields.get? key = some old ∧ field.args = old.args ∧
          (field.type = old.type ∨ ∃ slot ∈ (run.layOut models).pending,
            field.type = Arena.resolvedType slot (Naming.sanitize slot.target)) := by
      intro key field hfield
      obtain ⟨old, hold, hargs, hsettled⟩ := exists_laidOut_field run models
        ⟨.object name, key⟩ (Option.bind_eq_some_iff.2 ⟨type, hobject, hfield⟩)
      obtain ⟨first, hfirst, hold⟩ := Option.bind_eq_some_iff.1 hold
      exact ⟨first, old, hfirst, hold, hargs, hsettled⟩
    refine ⟨fun key field hfield object hlisted => ?_,
      fun honce mirror hmirror key field hfield => ?_⟩
    · obtain ⟨first, old, hfirst, hold, hargs, hsettled⟩ := hbefore key field hfield
      have hlists := lists_of_aware (hreflecting.fields name first hfirst key old hold) hargs
        hsettled hlisted
      exact ⟨hlists.imp_left And.left, fun hlate =>
        (hlists.resolve_left fun hearly => hearly.2 hlate).1⟩
    · obtain ⟨first, old, hfirst, hold, hargs, hsettled⟩ := hbefore key field hfield
      rw [run.input?_graphOf] at hmirror
      obtain ⟨source, hsource, known, hfields, hknown⟩ :=
        hreflecting.mirrors name honce mirror hmirror
      obtain rfl : first = source := Option.some.inj (hfirst.symm.trans hsource)
      refine ⟨old.type.input known, ?_, matches_input htargets ?_ ?_ hsettled
        (hknown key old hold)⟩
      · rw [hfields, OrderedMap.get?_map, hold]
        rfl
      · exact (hvalid type hmem field (OrderedMap.mem_values_iff.2 ⟨key, hfield⟩)).1
      · exact fun enum => ne_id_of_enum ⟨.object name, key⟩
          (Option.bind_eq_some_iff.2 ⟨type, hobject, hfield⟩)

end Run

/-- A model of places that list and mention themselves, and of two lists with one name. -/
def ModelDecl.atlas : ModelDecl where
  key := "atlases"
  name := "atlas"
  fields := [
    .list "places" (.embedded "place" [.scalar "label" .string,
      .list "children" (.embedded "place" []),
      .list "parts" (.nested [.embedded "back" "place" [], .scalar "label" .string])]),
    .list "x-y" (.nested [.scalar "q" .string]),
    .list "x_y" (.nested [.nested "q" [.scalar "z" .string]])]

/-- The children of a place can only be asked for their number, and a part of a place is matched by
the id of its place, though places have a mirror. The mirror of what two lists share is that of the
first one. -/
theorem Run.unmatched_atlas :
    let graph? := ((Run.mk {} ⟨0⟩ 0).synthesize [.atlas]).toOption
    let field? := fun object key => graph?.bind fun graph =>
      (graph.object? object).bind fun type => type.fields.get? key
    let entry? := fun input key => graph?.bind fun graph =>
      (graph.input? input).bind fun mirror => mirror.fields.get? key
    (field? "Place" "children").map (fun field => (field.type, field.args)) =
        some (.list (.object "Place"), Arguments.array none) ∧
      entry? "PlaceInput" "label" = some (.named "String") ∧
      (field? "PlaceParts" "back").map OutputField.type = some (.object "Place") ∧
      entry? "PlacePartsInput" "back" = some (.named "ID") ∧
      (field? "atlasX_y" "q").map OutputField.type = some (.object "atlasX_yQ") ∧
      entry? "atlasX_yInput" "q" = some (.named "String") := by
  decide +kernel

/-- The parts of a place are matched by their own mirror in the mirror of places, and its children,
which lead back, take their number only. -/
theorem Run.mirrors_atlas : ∃ graph, (Run.mk {} ⟨0⟩ 0).synthesize [.atlas] = .ok graph ∧
    ∃ place children, graph.type? "Place" = some (.object place) ∧
      place.fields.get? "children" = some children ∧ children.args = Arguments.array none ∧
        ∃ mirror, graph.input? "PlaceInput" = some mirror ∧
          mirror.fields.get? "parts" = some (.listOf "PlacePartsInput") := by
  let run := Run.mk {} ⟨0⟩ 0
  let result := run.synthesize [.atlas]
  obtain ⟨graph, hok, hfound⟩ : ∃ graph, result = .ok graph ∧
      ((graph.input? "PlaceInput").isSome && (graph.type? "Place").any fun named =>
        named.object?.any fun place =>
          (place.fields.get? "children").any (fun field =>
            field.type.listedObject? = some "Place") &&
          (place.fields.get? "parts").any fun field =>
            field.type = .list (.object "PlaceParts")) = true :=
    exists_eq_ok_of_any (by decide +kernel)
  obtain ⟨hmirror, hplace⟩ := Bool.and_eq_true_iff.1 hfound
  obtain ⟨mirror, hmirror⟩ := Option.isSome_iff_exists.1 hmirror
  obtain ⟨named, hnamed, hobject⟩ := (Option.any_eq_true ..).1 hplace
  obtain ⟨place, hobject, hshape⟩ := (Option.any_eq_true ..).1 hobject
  obtain ⟨hchildren, hparts⟩ := Bool.and_eq_true_iff.1 hshape
  obtain ⟨children, hchildren, hlisted⟩ := (Option.any_eq_true ..).1 hchildren
  obtain ⟨parts, hparts, htype⟩ := (Option.any_eq_true ..).1 hparts
  rw [NamedType.eq_object_of_object? hobject] at hnamed
  obtain ⟨hlists, hmatches⟩ := (mirrors_of_synthesize hok).2 "Place" place hnamed
  refine ⟨graph, hok, place, children, hnamed, hchildren, ?_, mirror, hmirror, ?_⟩
  · apply (hlists "children" children hchildren "Place" (of_decide_eq_true hlisted)).2
    exact ⟨by decide +kernel, by decide +kernel, by decide +kernel⟩
  · obtain ⟨entry, hentry, hmatch⟩ := hmatches (by decide +kernel) mirror hmirror "parts" parts
      hparts
    have hinner := hmatch.inner "PlaceParts" (by rw [of_decide_eq_true htype]; rfl)
      (by decide +kernel) (by decide +kernel)
    rw [hentry, hinner, of_decide_eq_true htype]
    rfl

end ModelGraph
