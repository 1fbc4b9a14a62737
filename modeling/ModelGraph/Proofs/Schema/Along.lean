import ModelGraph.Proofs.Schema.Registered

/-!
# Paths along the types of a schema

The path of a filter is followed through the type graph, from the model that a root field is of. The
types of the schema lead the same way as long as every step reads a stored field: the walk through
the graph goes from object to object, and it ends at the first step that leaves stored fields.

## Main definitions

- `Schema.along` — the steps that names make along the types of a schema
- `storedField?` — the field at the end of steps that all read stored fields

## Main statements

- `Schema.Exports.fieldAt?_eq` — the field that a path has in the graph
-/

namespace ModelGraph

/-- The field that the last of some steps reads, when every one of them reads a stored field. -/
def storedField? : List FieldStep → Option OutputField
  | [] => none
  | [step] => step.output?
  | step :: rest => step.output?.bind fun _ => storedField? rest

theorem storedField?_cons_cons (step next : FieldStep) (rest : List FieldStep) :
    storedField? (step :: next :: rest) =
      step.output?.bind fun _ => storedField? (next :: rest) := rfl

/-- What selections read from an object are its fields. -/
theorem SchemaObject.field_mem_of_mem_reads {type : SchemaObject} {read : ReadField} :
    (selections : List Selection) → read ∈ type.reads selections → read.field ∈ type.fields
  | [], h => by
    rw [reads] at h
    cases h
  | .field alias? name arguments directives inner :: rest, h => by
    rw [reads, List.mem_append, Option.mem_toList, Option.map_eq_some_iff] at h
    rcases h with ⟨field, hfield, rfl⟩ | h
    · split at hfield
      · cases hfield
      · exact List.mem_of_find?_eq_some hfield
    · exact field_mem_of_mem_reads rest h
  | .inline condition directives inner :: rest, h => by
    rw [reads, List.mem_append] at h
    rcases h with h | h
    · split at h
      · exact field_mem_of_mem_reads inner h
      · cases h
    · exact field_mem_of_mem_reads rest h
  | .spread name directives :: rest, h => by
    rw [reads] at h
    exact field_mem_of_mem_reads rest h

/-- The name under the wrappers of an output type is that of what the values are. -/
theorem TypeRef.innermost_ofField? {type : FieldType} {ref : TypeRef}
    (h : ofField? type = .ok ref) :
    match type.innermost with
    | .scalar kind => ref.innermost = kind.name
    | .enum name | .object name | .connection name => ref.innermost = name
    | .list _ | .nonNull _ | .unresolved _ => False := by
  induction type generalizing ref with
  | scalar | enum | object | connection =>
    cases h
    rfl
  | list element ih | nonNull element ih =>
    obtain ⟨inner, hinner, rfl⟩ := map_eq_ok_iff.1 h
    exact @ih inner hinner
  | unresolved => cases h

theorem TypeGraph.mem_objects_of_object? {graph : TypeGraph} {name : String} {type : ObjectType}
    (h : graph.object? name = some type) : type ∈ graph.objects := by
  rw [object?] at h
  split at h
  · next model hmodel =>
    cases h
    exact mem_objects_iff.2 (.inl (mem_models_iff.2 ⟨name, hmodel⟩))
  · split at h
    · next object htype =>
      cases h
      exact mem_objects_iff.2 (.inr (mem_namedTypes_iff.2 ⟨name, htype⟩))
    · cases h

/-- What is found at a path is a field of the graph. -/
theorem TypeGraph.exists_of_fieldAlong? {graph : TypeGraph} {type : ObjectType}
    (htype : type ∈ graph.objects) {names : List String} {output : OutputField}
    (h : graph.fieldAlong? type names = some output) :
    ∃ owner ∈ graph.objects, output ∈ owner.fields.values := by
  induction names generalizing type with
  | nil => cases h
  | cons name rest ih =>
    cases rest with
    | nil => exact ⟨type, htype, OrderedMap.mem_values_iff.2 ⟨name, h⟩⟩
    | cons next rest =>
      obtain ⟨field, -, h⟩ := Option.bind_eq_some_iff.1 h
      obtain ⟨object, hobject, h⟩ := Option.bind_eq_some_iff.1 h
      obtain ⟨target, -, hobject⟩ := Option.bind_eq_some_iff.1 hobject
      exact ih (mem_objects_of_object? hobject) h

theorem TypeGraph.exists_of_fieldAt? (graph : TypeGraph) {root path : String} {output : OutputField}
    (h : graph.fieldAt? root path = some output) :
    ∃ owner ∈ graph.objects, output ∈ owner.fields.values := by
  obtain ⟨type, htype, h⟩ := Option.bind_eq_some_iff.1 h
  exact exists_of_fieldAlong? (mem_objects_of_object? htype) h

namespace Schema

/-- The steps that names make, from a type on. -/
def along (schema : Schema) (owner? : Option SchemaType) : List String → List FieldStep
  | [] => []
  | name :: rest =>
    let step : FieldStep := ⟨owner?, name⟩
    step :: along schema (schema.below? step) rest

variable {ω : Type} {schema : Schema} {registry : HookRegistry ω} {graph : TypeGraph}
  {all : List SchemaType}

/-- Where the first step reads no stored field there is none at the end. -/
theorem storedField?_along_eq_none {owner? : Option SchemaType}
    (h : ∀ name, (FieldStep.mk owner? name).output? = none) (names : List String) :
    storedField? (schema.along owner? names) = none := by
  cases names with
  | nil => rfl
  | cons name rest =>
    rw [along]
    cases hrest : schema.along (schema.below? ⟨owner?, name⟩) rest with
    | nil => exact h name
    | cons next steps =>
      rw [storedField?_cons_cons, h name]
      rfl

section Exports

variable (h : schema.Exports graph registry all) (hnames : (all.map SchemaType.name).Nodup)

include h hnames

/-- The names of scalars are found as scalars. -/
theorem Exports.type?_scalar (kind : OutputScalar) :
    schema.type? kind.name = some (.scalar kind.name) := by
  by_cases hcustom : kind ∈ OutputScalar.custom
  · obtain ⟨models, named, -, -, -, rfl⟩ := registered_eq_ok h.registered_eq
    have hbase : SchemaType.scalar kind.name ∈ baseTypes :=
      List.mem_append_left _ (List.mem_map.2 ⟨kind, hcustom, rfl⟩)
    exact h.type?_of_mem hnames
      (List.mem_append_left _ (List.mem_append_left _ (List.mem_append_left _ hbase)))
  · have hbuiltIn : builtinScalars.contains kind.name = true := by
      cases kind <;> first | rfl | exact absurd (by decide) hcustom
    rw [type?, typeOf?, if_pos hbuiltIn]

/-- An object type of the graph is found under its name. -/
theorem Exports.type?_object {type : ObjectType} (htype : type ∈ graph.objects) :
    ∃ object, objectType registry type = .ok (.object object) ∧ .object object ∈ all ∧
      schema.type? type.name = some (.object object) := by
  obtain ⟨object, hobject, hmem⟩ := h.exists_objectType htype
  obtain ⟨fields, -, heq⟩ := objectType_eq_ok hobject
  have hname : object.name = type.name := by
    rw [SchemaType.object.inj heq]
  exact ⟨object, hobject, hmem, hname ▸ h.type?_of_mem hnames hmem⟩

/-- No type of a schema has a field that asks for type names. -/
theorem Exports.field?_typeName {object : SchemaObject} (hobject : .object object ∈ all) :
    object.field? Selection.typeName = none := by
  have hcheck := (h.checked_of_mem hnames hobject).2
  refine Option.eq_none_iff_forall_ne_some.2 fun field hfield => ?_
  have hmem : field ∈ object.fields := List.mem_of_find?_eq_some hfield
  have hname := SchemaObject.name_of_field? hfield
  unfold checkType at hcheck
  split at hcheck
  · cases hcheck
  · dsimp only at hcheck
    split at hcheck
    · cases hcheck
    · obtain ⟨_, hfields, -⟩ := bind_eq_ok_iff.1 hcheck
      have hone := forM_eq_ok_iff.1 hfields field hmem
      unfold checkField at hone
      rw [if_pos (by rw [hname]; rfl)] at hone
      cases hone

/-- A step from an object type of the graph reads the field of its name, and leads to the type that
this field is given. -/
theorem Exports.step_of_object (hgraph : graph.Furnished) {type : ObjectType}
    (htype : type ∈ graph.objects) {object : SchemaObject}
    (hobject : objectType registry type = .ok (.object object)) (hmem : .object object ∈ all)
    (name : String) :
    let step : FieldStep := ⟨some (.object object), name⟩
    match type.fields.get? name with
    | some output => step.output? = some output ∧ ∃ ref, TypeRef.ofField? output.type = .ok ref ∧
        schema.below? step = schema.type? ref.innermost
    | none => step.output? = none := by
  have hsame := field?_of_objectType hobject (hgraph.fields type htype) name
  dsimp only
  cases hget : type.fields.get? name with
  | none =>
    rw [hget] at hsame
    rw [FieldStep.output?, FieldStep.field?]
    dsimp only
    rw [hsame]
    rfl
  | some output =>
    rw [hget] at hsame
    obtain ⟨field, hfield, hexported⟩ := hsame
    obtain ⟨-, hreader, -, href⟩ := outputField_eq_ok hexported
    have hname : name ≠ Selection.typeName := by
      rintro rfl
      rw [h.field?_typeName hnames hmem] at hfield
      cases hfield
    refine ⟨?_, field.type, href, ?_⟩
    · rw [FieldStep.output?, FieldStep.field?]
      dsimp only
      rw [hfield, Option.bind_some, hreader]
      rfl
    · rw [below?, if_neg hname, Option.bind_some, SchemaType.selectable?]
      dsimp only
      rw [hfield]
      rfl

variable {run : Run} {models : List ModelDecl} (hgraph : run.synthesize models = .ok graph)

include hgraph

/-- The type below a stored field is that of the object that its values are, or it reads no stored
fields. -/
theorem Exports.below_of_output {type : ObjectType} (htype : type ∈ graph.objects)
    {output : OutputField} (houtput : output ∈ type.fields.values) {ref : TypeRef}
    (href : TypeRef.ofField? output.type = .ok ref) :
    match graph.objectOf? output.type with
    | some next => next ∈ graph.objects ∧ ∃ object,
        objectType registry next = .ok (.object object) ∧
        .object object ∈ all ∧ schema.type? ref.innermost = some (.object object)
    | none => ∀ name, (FieldStep.mk (schema.type? ref.innermost) name).output? = none := by
  have hfurnished := Run.furnished_of_synthesize hgraph
  have hhas := (Run.closed_of_synthesize hgraph).1.types type htype output houtput
  have hinnermost := TypeRef.innermost_ofField? href
  rw [TypeGraph.objectOf?, FieldType.objectName?]
  rw [TypeGraph.Has] at hhas
  cases hcore : output.type.innermost with
  | scalar kind =>
    rw [hcore] at hinnermost
    intro name
    rw [hinnermost, h.type?_scalar hnames]
    rfl
  | enum enum =>
    rw [hcore] at hinnermost hhas
    obtain ⟨found, hfound⟩ := Option.isSome_iff_exists.1 hhas
    have htype := TypeGraph.enum?_eq_some_iff.1 hfound
    have hget := h.type?_of_named hnames htype rfl (List.mem_singleton_self _)
    have hname : found.name = enum := hfurnished.types enum _ htype
    change schema.type? found.name = _ at hget
    rw [hname] at hget
    intro name
    rw [hinnermost, hget]
    rfl
  | object object =>
    rw [hcore] at hinnermost hhas
    obtain ⟨next, hnext⟩ := Option.isSome_iff_exists.1 hhas
    have hmem := TypeGraph.mem_objects_of_object? hnext
    obtain ⟨exported, hexported, hall, hget⟩ := h.type?_object hnames hmem
    dsimp only
    rw [Option.bind_some, hnext]
    refine ⟨hmem, exported, hexported, hall, ?_⟩
    rw [hinnermost, ← hfurnished.object hnext]
    exact hget
  | connection connection =>
    rw [hcore] at hinnermost hhas
    obtain ⟨found, hfound⟩ := Option.isSome_iff_exists.1 hhas
    have htype := TypeGraph.connection?_eq_some_iff.1 hfound
    have hget := h.type?_of_named hnames htype rfl (List.mem_cons_self ..)
    have hname : found.name = connection := hfurnished.types connection _ htype
    change schema.type? found.name = _ at hget
    rw [hname] at hget
    intro name
    rw [hinnermost, hget, FieldStep.output?, FieldStep.field?]
    refine Option.bind_eq_none_iff.2 fun field hfield => ?_
    have hmem : field ∈ _ := List.mem_of_find?_eq_some hfield
    simp only [List.mem_cons, List.not_mem_nil, or_false] at hmem
    rcases hmem with rfl | rfl <;> rfl
  | list | nonNull | unresolved =>
    rw [hcore] at hinnermost
    exact hinnermost.elim

/-- The field along names in the graph is the stored field along them in the schema. -/
theorem Exports.fieldAlong?_eq {type : ObjectType} (htype : type ∈ graph.objects)
    {object : SchemaObject} (hobject : objectType registry type = .ok (.object object))
    (hmem : .object object ∈ all) (names : List String) :
    graph.fieldAlong? type names =
      storedField? (schema.along (some (.object object)) names) := by
  have hfurnished := Run.furnished_of_synthesize hgraph
  induction names generalizing type object with
  | nil => rfl
  | cons name rest ih =>
    have hstep := h.step_of_object hnames hfurnished htype hobject hmem name
    dsimp only at hstep
    cases rest with
    | nil =>
      rw [along, along, storedField?, TypeGraph.fieldAlong?]
      cases hget : type.fields.get? name with
      | none =>
        rw [hget] at hstep
        exact hstep.symm
      | some output =>
        rw [hget] at hstep
        exact hstep.1.symm
    | cons next rest =>
      have hcons : graph.fieldAlong? type (name :: next :: rest) =
          (type.fields.get? name).bind fun field =>
            (graph.objectOf? field.type).bind fun object =>
              graph.fieldAlong? object (next :: rest) := rfl
      rw [along, along, storedField?_cons_cons, ← along, hcons]
      cases hget : type.fields.get? name with
      | none =>
        rw [hget] at hstep
        rw [hstep]
        rfl
      | some output =>
        rw [hget] at hstep
        obtain ⟨houtput, ref, href, hbelow⟩ := hstep
        have hvalue : output ∈ type.fields.values := OrderedMap.mem_values_iff.2 ⟨name, hget⟩
        have hfound := h.below_of_output hnames hgraph htype hvalue href
        rw [houtput, hbelow, Option.bind_some, Option.bind_some]
        cases hnext : graph.objectOf? output.type with
        | none =>
          rw [hnext] at hfound
          rw [storedField?_along_eq_none hfound]
          rfl
        | some other =>
          rw [hnext] at hfound
          obtain ⟨hother, exported, hexported, hall, hget⟩ := hfound
          rw [hget]
          exact ih hother hexported hall

omit hnames in
/-- A field that asks for records of a model is of that model's type. -/
theorem Exports.model_of_read {type : SchemaObject} (htype : .object type ∈ all)
    {selections : List Selection} {read : ReadField} (hread : read ∈ type.reads selections)
    {model : ObjectType} (hmodel : read.field.reader.model? = some model) :
    read.field.type.innermost = model.name ∧ model ∈ graph.objects ∧
      graph.object? model.name = some model := by
  have hfield := SchemaObject.field_mem_of_mem_reads _ hread
  rcases h.object_cases htype with ⟨source, -, hexported⟩ | hother
  · obtain ⟨fields, hmatch, heq⟩ := objectType_eq_ok hexported
    obtain rfl := SchemaType.object.inj heq
    obtain ⟨output, -, hsame⟩ := exists_of_forall₂ hmatch read.field hfield
    rw [(outputField_eq_ok hsame).2.1] at hmodel
    cases hmodel
  · obtain ⟨hmem, hname⟩ := (hother read.field hfield).2 model hmodel
    obtain ⟨shared, hshared, rfl⟩ := List.mem_map.1 hmem
    obtain ⟨key, hkey⟩ := OrderedMap.mem_values_iff.1 hshared
    have hget : graph.model? key = some shared.value := by
      rw [TypeGraph.model?, hkey]
      rfl
    have hkey := (Run.furnished_of_synthesize hgraph).models key _ hget
    refine ⟨hname, List.mem_append_left _ hmem, ?_⟩
    rw [hkey, TypeGraph.object?, hget]

/-- The field that a path has in the graph, below the model that a field asks for, is the stored
field along the types of the schema. -/
theorem Exports.fieldAt?_eq {type : SchemaObject} (htype : .object type ∈ all)
    {selections : List Selection} {read : ReadField} (hread : read ∈ type.reads selections)
    {model : ObjectType} (hmodel : read.field.reader.model? = some model) {path : List String}
    (hpath : ∀ name ∈ path, Path.IsSegment name) (hne : path ≠ []) :
    graph.fieldAt? model.name (Path.joined path) =
      storedField? (schema.along (schema.type? read.field.type.innermost) path) := by
  obtain ⟨hname, hmem, hget⟩ := h.model_of_read hgraph htype hread hmodel
  obtain ⟨object, hobject, hall, hfound⟩ := h.type?_object hnames hmem
  rw [TypeGraph.fieldAt?, hget, Option.bind_some, Path.segments_joined hpath hne, hname, hfound]
  exact h.fieldAlong?_eq hnames hgraph hmem hobject hall path

end Exports

end Schema

end ModelGraph
