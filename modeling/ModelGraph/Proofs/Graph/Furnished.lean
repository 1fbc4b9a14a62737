import ModelGraph.Proofs.Graph.Closed
import ModelGraph.Proofs.Graph.Traced

/-!
# Names and arguments of fields

Every field of a graph stands under its own name, which is the stored name rewritten. A field whose
values are scalars or enum items is given the comparison arguments for these, or none. Resolving
references takes neither away: what it puts in the place of a slot is an object or a connection.

## Main definitions

- `FieldType.leaf?` — the scalar or the enum that the values of a type are
- `OutputField.Furnished` — a field with the name and the arguments that its source and type ask for
- `TypeGraph.Furnished` — a graph with such fields, whose types stand under their names

## Main statements

- `Run.furnished_of_synthesize` — the graph of a run is furnished
-/

namespace ModelGraph

/-- The name of the scalar or the enum whose values a type has, alone or in lists. -/
def FieldType.leaf? (type : FieldType) : Option String :=
  match type.innermost with
  | .scalar kind => some kind.name
  | .enum name => some name
  | _ => none

theorem FieldType.leaf?_nullable (type : FieldType) : type.nullable.leaf? = type.leaf? := by
  cases type <;> rfl

/-- The arguments of a type with scalar or enum values compare with these, if there are any. -/
theorem Arguments.derive_of_leaf? {objects : OrderedMap String ObjectType} {type : FieldType}
    {leaf : String} (h : type.leaf? = some leaf) (mirrors : Mirrors) :
    ((derive objects type).run mirrors).1 = [] ∨
      ((derive objects type).run mirrors).1 = comparison leaf := by
  rw [← type.leaf?_nullable] at h
  rw [derive]
  cases hcore : type.nullable with
  | scalar | enum =>
    rw [hcore] at h
    cases h
    exact .inr rfl
  | object | connection | nonNull | unresolved => exact .inl rfl
  | list element =>
    rw [hcore] at h
    have helement : element.nullable.leaf? = some leaf := element.leaf?_nullable.trans h
    dsimp only
    cases hinner : element.nullable with
    | scalar | enum =>
      rw [hinner] at helement
      cases helement
      exact .inr rfl
    | object =>
      rw [hinner] at helement
      cases helement
    | list | connection | nonNull | unresolved => exact .inl rfl

/-- A field that stands under its name, which its source gives, with arguments that suit its
values. -/
structure OutputField.Furnished (key : String) (field : OutputField) : Prop where
  name_eq : field.name = key
  source : field.identity = true ∨ field.name = Naming.sanitize field.source
  args : ∀ leaf, field.type.leaf? = some leaf →
    field.args = [] ∨ field.args = Arguments.comparison leaf

theorem OutputField.furnished_ofIdentity (source : String) :
    (OutputField.ofIdentity source).Furnished Identity.field :=
  ⟨rfl, .inl rfl, fun _ _ => .inl rfl⟩

/-- Every field of a map is furnished. -/
def Furnishes (fields : OrderedMap String OutputField) : Prop :=
  ∀ key field, fields.get? key = some field → field.Furnished key

theorem furnishes_empty : Furnishes ∅ := fun _ _ h => by cases h

theorem Furnishes.insert {fields : OrderedMap String OutputField} (h : Furnishes fields)
    {key : String} {field : OutputField} (hfield : field.Furnished key) :
    Furnishes (fields.insert key field) := by
  intro other found hget
  rw [OrderedMap.get?_insert] at hget
  split at hget
  · next heq =>
    cases hget
    exact heq ▸ hfield
  · exact h other found hget

namespace Arena

/-- An arena whose finished types stand under their names and have furnished fields. -/
def Furnished (objects : OrderedMap String ObjectType) : Prop :=
  ∀ name type, objects.get? name = some type → type.name = name ∧ Furnishes type.fields

theorem Furnished.insert {objects : OrderedMap String ObjectType} (h : Furnished objects)
    {name : String} {type : ObjectType} (hname : type.name = name) (htype : Furnishes type.fields) :
    Furnished (objects.insert name type) := by
  intro other found hget
  rw [OrderedMap.get?_insert] at hget
  split at hget
  · next heq =>
    cases hget
    exact ⟨hname.trans heq, htype⟩
  · exact h other found hget

theorem objects_argumentsOf (type : FieldType) (arena : Arena) :
    ((argumentsOf type).run arena).2.objects = arena.objects := by
  rw [run_argumentsOf]
  split <;> rfl

theorem argumentsOf_of_leaf? {type : FieldType} {leaf : String} (h : type.leaf? = some leaf)
    (arena : Arena) : ((argumentsOf type).run arena).1 = [] ∨
      ((argumentsOf type).run arena).1 = Arguments.comparison leaf := by
  rw [run_argumentsOf]
  split
  · exact .inl rfl
  · exact Arguments.derive_of_leaf? h arena.inputs

end Arena

namespace KeptField

theorem furnished_output (head : FieldHead) (type : FieldType) (arena : Arena) :
    ((output head type).run arena).1.Furnished (Naming.sanitize head.source) :=
  ⟨rfl, .inr rfl, fun _ hleaf => Arena.argumentsOf_of_leaf? hleaf arena⟩

mutual

theorem furnished_buildType (owner path : String) : (kept : KeptField) → (arena : Arena) →
    Arena.Furnished arena.objects →
      Arena.Furnished ((buildType owner path kept).run arena).2.objects
  | .value head type enums, arena, h => by
    rw [buildType]
    exact h
  | .reference head target cardinality, arena, h => by
    rw [buildType]
    exact h
  | .shape head inList object embedded fields, arena, h => by
    obtain ⟨hfields, hobjects⟩ :=
      furnished_buildAll owner (Path.child path head.source) fields ∅ arena furnishes_empty h
    rw [buildType]
    exact hobjects.insert rfl hfields

/-- Building fields furnishes them, and the types that are finished on the way. -/
theorem furnished_buildAll (owner path : String) : (kept : List KeptField) →
    (done : OrderedMap String OutputField) → (arena : Arena) → Furnishes done →
    Arena.Furnished arena.objects →
      let built := (buildAll owner path kept done).run arena
      Furnishes built.1 ∧ Arena.Furnished built.2.objects
  | [], done, arena, hdone, h => by
    rw [buildAll]
    exact ⟨hdone, h⟩
  | kept :: rest, done, arena, hdone, h => by
    let typed := (buildType owner path kept).run arena
    let placed := (output kept.head typed.1).run typed.2
    have htyped : Arena.Furnished typed.2.objects := furnished_buildType owner path kept arena h
    have hplaced : Arena.Furnished placed.2.objects := by
      have hsame := Arena.objects_argumentsOf
        (if kept.head.nonNull && !typed.1.isUnresolved then typed.1.asNonNull else typed.1) typed.2
      exact hsame ▸ htyped
    have hfield := furnished_output kept.head typed.1 typed.2
    rw [buildAll]
    exact furnished_buildAll owner path rest (done.insert placed.1.name placed.1) placed.2
      (hdone.insert hfield) hplaced

end

end KeptField

namespace Arena

/-- A root has the identity field and the fields that are built for its model. -/
theorem furnishes_rootOf (settings : SynthSettings) (identity : Identity) (model : ModelDecl)
    {declared : OrderedMap String OutputField} (h : Furnishes declared) :
    Furnishes (rootOf settings identity model declared).fields := by
  intro key field hget
  rcases get?_rootOf.1 hget with hget | ⟨-, rfl, rfl⟩
  · exact h key field hget
  · exact OutputField.furnished_ofIdentity _

/-- Resolving a slot takes nothing from a field: the type in its place has no leaves. -/
theorem leaf?_resolvedType (slot : ReferenceSlot) (node : String) :
    (resolvedType slot node).leaf? = none := by
  rw [resolvedType]
  cases slot.cardinality with
  | single => cases slot.nonNull <;> rfl
  | plural => rfl

theorem furnished_settleAll {arena : Arena} {slots : List ReferenceSlot}
    (h : ∀ place field, arena.fieldAt? place = some field → field.Furnished place.name)
    {place : FieldPlace} {field : OutputField}
    (hfield : (arena.settleAll slots).fieldAt? place = some field) :
    field.Furnished place.name := by
  induction slots generalizing arena with
  | nil => exact h place field hfield
  | cons slot rest ih =>
    refine ih (fun place field hget => ?_) hfield
    rw [fieldAt?_settle] at hget
    split at hget
    · obtain ⟨old, hold, rfl⟩ := Option.map_eq_some_iff.1 hget
      have hbefore := h place old hold
      refine ⟨hbefore.name_eq, hbefore.source, fun leaf hleaf => ?_⟩
      rw [leaf?_resolvedType] at hleaf
      cases hleaf
    · exact h place field hget

end Arena

/-- A graph whose types stand under their names, and whose fields are furnished. -/
structure TypeGraph.Furnished (graph : TypeGraph) : Prop where
  fields : ∀ type ∈ graph.objects, Furnishes type.fields
  models : ∀ name model, graph.model? name = some model → model.name = name
  types : ∀ name type, graph.type? name = some type → type.name = name

/-- A field of a furnished graph stands under its name. -/
theorem TypeGraph.Furnished.field {graph : TypeGraph} (h : graph.Furnished) {type : ObjectType}
    (htype : type ∈ graph.objects) {output : OutputField} (houtput : output ∈ type.fields.values) :
    output.Furnished output.name := by
  obtain ⟨key, hkey⟩ := OrderedMap.mem_values_iff.1 houtput
  have hfurnished := h.fields type htype key output hkey
  exact hfurnished.name_eq ▸ hfurnished

theorem TypeGraph.Furnished.object {graph : TypeGraph} (h : graph.Furnished) {name : String}
    {type : ObjectType} (hget : graph.object? name = some type) : type.name = name := by
  rw [object?] at hget
  split at hget
  · next model hmodel =>
    cases hget
    exact h.models name type hmodel
  · split at hget
    · next object htype =>
      cases hget
      exact h.types name _ htype
    · cases hget

namespace Run

/-- The types of a run stand under their names and have furnished fields. -/
theorem furnished_layOut (run : Run) (models : List ModelDecl) :
    Arena.Furnished (run.layOut models).objects ∧ Arena.Furnished (run.layOut models).roots := by
  refine run.layOut_induct models
    (P := fun _ arena => Arena.Furnished arena.objects ∧ Arena.Furnished arena.roots)
    ⟨fun _ _ h => (by cases h), fun _ _ h => (by cases h)⟩ fun _ arena model _ h => ?_
  let kept := ((model.keep run.settings).run arena.seen).1
  obtain ⟨hfields, hobjects⟩ := KeptField.furnished_buildAll kept.owner "" kept.fields ∅ arena
    furnishes_empty h.1
  rw [Arena.run_addModel_kept]
  exact ⟨hobjects, h.2.insert rfl (Arena.furnishes_rootOf run.settings run.identity model hfields)⟩

variable {run : Run} {models : List ModelDecl} {graph : TypeGraph}

/-- With all slots resolved, the types of a run stand under their names and have furnished
fields. -/
theorem furnished_settled {holder : Holder} {type : ObjectType}
    (h : (run.layOut models).settled.holder? holder = some type) :
    type.name = holder.name ∧ Furnishes type.fields := by
  obtain ⟨hobjects, hroots⟩ := run.furnished_layOut models
  have hbefore : ∀ holder type, (run.layOut models).holder? holder = some type →
      type.name = holder.name ∧ Furnishes type.fields := by
    rintro (name | name) type hget
    · exact hroots name type hget
    · exact hobjects name type hget
  obtain ⟨old, hold, heq⟩ := Arena.exists_holder?_settleAll h
  refine ⟨(congrArg ObjectType.name heq).trans (hbefore holder old hold).1,
    fun key field hget => ?_⟩
  refine @Arena.furnished_settleAll { run.layOut models with pending := [] }
    (run.layOut models).pending (fun place field hfield => ?_) ⟨holder, key⟩ field ?_
  · obtain ⟨type, htype, hfield⟩ := Option.bind_eq_some_iff.1 hfield
    exact (hbefore place.holder type htype).2 place.name field hfield
  · exact Option.bind_eq_some_iff.2 ⟨type, h, hget⟩

theorem name_of_namedTypes {name : String} {type : NamedType}
    (h : (run.layOut models).settled.namedTypes.get? name = some type) : type.name = name := by
  have hfind := (run.type?_graphOf models (run.layOut models).settled name).trans h
  cases type with
  | enum enum =>
    rw [← TypeGraph.enum?_eq_some_iff, run.enum?_graphOf] at hfind
    exact ((run.traced models).1.enums name enum hfind).1
  | input input =>
    rw [← TypeGraph.input?_eq_some_iff, run.input?_graphOf] at hfind
    exact ((run.traced models).1.inputs name input hfind).1
  | connection connection =>
    rw [← TypeGraph.connection?_eq_some_iff, run.connection?_graphOf] at hfind
    obtain ⟨-, -, -, -, hname⟩ := run.exists_slot_of_connection models hfind
    exact hname
  | object object =>
    have hholder : (run.layOut models).settled.holder? (.object name) = some object :=
      Arena.get?_objects_of_namedTypes h
    exact (furnished_settled hholder).1

/-- The graph of a run is furnished. -/
theorem furnished_of_synthesize (h : run.synthesize models = .ok graph) : graph.Furnished := by
  obtain ⟨-, arena, hresolve, -, -, rfl⟩ := synthesize_eq_ok_iff.1 h
  obtain ⟨-, rfl⟩ := Arena.resolve_eq_ok_iff.1 hresolve
  refine ⟨fun type htype => ?_, fun name model hget => ?_, fun name type hget => ?_⟩
  · obtain ⟨holder, hholder⟩ := run.exists_holder_of_mem_objects models htype
    exact (furnished_settled hholder).2
  · by_cases hname : name ∈ models.map fun model => Naming.sanitize model.name
    · rw [run.model?_graphOf models _ hname] at hget
      have hholder : (run.layOut models).settled.holder? (.root name) = some model := hget
      exact (furnished_settled hholder).1
    · rw [run.model?_graphOf_of_notMem models _ hname] at hget
      cases hget
  · rw [run.type?_graphOf] at hget
    exact name_of_namedTypes hget

end Run

end ModelGraph
