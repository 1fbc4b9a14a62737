import ModelGraph.Proofs.Graph.Drawn
import ModelGraph.Proofs.Graph.Furnished
import ModelGraph.Proofs.Spelling

/-!
# Names in runs

Every name that a run makes is valid. Fields and enum items have rewritten names, and so do roots;
the names of all other types are composed of these. Arguments have names of their own, and the
fields of a mirror have those of its object type. What types and arguments mention are built-in
names, names that the run adds, and rewritten names of targets.

## Main definitions

- `ObjectType.names`, `NamedType.names` — all names in a type
- `KeptField.Spelled` — kept fields whose object types and enums have valid names
- `Arena.Spelled` — an arena whose fields, arguments and mirrors have valid names

## Main statements

- `KeptField.spelled_keepAll` — below a valid name, what fields add has valid names
- `Run.isName_root`, `Run.isName_type` — all names in the types of a run are valid
-/

namespace ModelGraph

open Naming (IsName)

/-! ### The names in types -/

/-- The name at the core of a type. -/
def FieldType.names (type : FieldType) : List String :=
  match type.innermost with
  | .scalar kind => [kind.name]
  | .enum name | .object name | .connection name => [name]
  | .list _ | .nonNull _ | .unresolved _ => []

/-- The name of a field, with the names that its type and its arguments mention. -/
def OutputField.names (field : OutputField) : List String :=
  field.name :: field.type.names ++ field.args.flatMap fun arg => [arg.name, arg.type.innermost]

/-- All names in an object type. -/
def ObjectType.names (type : ObjectType) : List String :=
  type.name :: type.fields.keys ++ type.fields.values.flatMap OutputField.names

/-- All names in a named type. -/
def NamedType.names : NamedType → List String
  | .object type => type.names
  | .enum type => type.name :: type.values.map EnumValue.name
  | .input type => type.name :: type.fields.keys ++ type.fields.values.map ArgType.innermost
  | .connection type => [type.name, type.edge, type.node]

/-- The vocabulary of all valid names. -/
def Vocabulary.valid : Vocabulary := ⟨IsName, IsName, IsName⟩

theorem isName_builtIn {name : String} (h : Arguments.isBuiltIn name = true) : IsName name := by
  have hall : ∀ name ∈ OutputScalar.all.map OutputScalar.name ++
      [Arguments.sortDirection, Arguments.logicalOperator], IsName name := by decide
  exact hall name (Arguments.mem_of_isBuiltIn h)

theorem FieldType.Uses.isName {type : FieldType} (h : type.Uses .valid) :
    ∀ name ∈ type.names, IsName name := by
  rw [Uses] at h
  rw [names]
  cases hcore : type.innermost with
  | scalar kind =>
    exact List.forall_mem_singleton.2 (isName_builtIn (Arguments.isBuiltIn_scalar kind))
  | enum _ | object _ | connection _ =>
    rw [hcore] at h
    exact List.forall_mem_singleton.2 h
  | list _ | nonNull _ | unresolved _ => exact fun _ hname => absurd hname List.not_mem_nil

/-! ### Arguments -/

namespace Arguments

theorem isName_comparison (element : String) : ∀ arg ∈ comparison element, IsName arg.name := by
  have hcomparisons : ∀ name ∈ comparisons, IsName name := by decide
  have hothers : IsName op ∧ IsName sort ∧ IsName sortOrder := by decide
  intro arg harg
  rcases List.mem_append.1 harg with harg | harg
  · obtain ⟨name, hname, rfl⟩ := List.mem_map.1 harg
    split <;> exact hcomparisons name hname
  · simp only [List.mem_cons, List.not_mem_nil, or_false] at harg
    obtain ⟨hop, hsort, horder⟩ := hothers
    rcases harg with rfl | rfl | rfl
    · exact hop
    · exact hsort
    · exact horder

theorem isName_array (mirror : Option String) : ∀ arg ∈ array mirror, IsName arg.name := by
  have hnames : IsName "all" ∧ IsName "size" ∧ IsName "elemMatch" := by decide
  obtain ⟨hall, hsize, helem⟩ := hnames
  intro arg harg
  cases mirror with
  | none =>
    obtain rfl := List.mem_singleton.1 harg
    exact hsize
  | some name =>
    simp only [array, List.mem_cons, List.not_mem_nil, or_false] at harg
    rcases harg with rfl | rfl | rfl
    · exact hall
    · exact hsize
    · exact helem

/-- All arguments that are derived have valid names. -/
theorem isName_derive (objects : OrderedMap String ObjectType) (type : FieldType)
    (mirrors : Mirrors) : ∀ arg ∈ ((derive objects type).run mirrors).1, IsName arg.name := by
  have hnone : ∀ arg ∈ ([] : List Argument), IsName arg.name :=
    fun _ harg => absurd harg List.not_mem_nil
  rw [derive]
  cases type.nullable with
  | scalar kind => exact isName_comparison kind.name
  | enum name => exact isName_comparison name
  | object _ | connection _ | nonNull _ | unresolved _ => exact hnone
  | list element =>
    dsimp only
    cases element.nullable with
    | scalar kind => exact isName_comparison kind.name
    | enum name => exact isName_comparison name
    | list _ | connection _ | nonNull _ | unresolved _ => exact hnone
    | object name => exact isName_array _

end Arguments

/-! ### Keeping -/

namespace KeptField

/-- Kept fields whose object types and enums have valid names, with valid items. -/
structure Spelled (kept : List KeptField) : Prop where
  objects : ∀ name ∈ objectNamesAll kept, IsName name
  enums : ∀ enum ∈ enumsAll kept, ∀ name ∈ (NamedType.enum enum).names, IsName name

theorem spelled_nil : Spelled [] where
  objects _ h := absurd h List.not_mem_nil
  enums _ h := absurd h List.not_mem_nil

theorem Spelled.append {kept others : List KeptField} (h : Spelled kept) (h' : Spelled others) :
    Spelled (kept ++ others) := by
  induction kept with
  | nil => exact h'
  | cons first rest ih =>
    obtain ⟨hobjects, henums⟩ := h
    rw [objectNamesAll] at hobjects
    rw [enumsAll] at henums
    have hrest := ih ⟨fun name hname => hobjects name (List.mem_append_right _ hname),
      fun enum henum => henums enum (List.mem_append_right _ henum)⟩
    refine ⟨?_, ?_⟩
    · rw [List.cons_append, objectNamesAll]
      exact List.forall_mem_append.2
        ⟨fun name hname => hobjects name (List.mem_append_left _ hname), hrest.objects⟩
    · rw [List.cons_append, enumsAll]
      exact List.forall_mem_append.2
        ⟨fun enum henum => henums enum (List.mem_append_left _ henum), hrest.enums⟩

theorem spelled_value (head : FieldHead) (type : FieldType) {enums : List EnumType}
    (h : ∀ enum ∈ enums, ∀ name ∈ (NamedType.enum enum).names, IsName name) :
    Spelled [.value head type enums] := by
  refine ⟨?_, ?_⟩
  · rw [objectNamesAll, objectNames, objectNamesAll]
    exact fun _ hname => absurd hname List.not_mem_nil
  · rw [enumsAll, KeptField.enums, enumsAll, List.append_nil]
    exact h

theorem spelled_reference (head : FieldHead) (target : String) (cardinality : Cardinality) :
    Spelled [.reference head target cardinality] := by
  refine ⟨?_, ?_⟩
  · rw [objectNamesAll, objectNames, objectNamesAll]
    exact fun _ hname => absurd hname List.not_mem_nil
  · rw [enumsAll, KeptField.enums, enumsAll]
    exact fun _ henum => absurd henum List.not_mem_nil

/-- A shape adds its own object type to what its fields add. -/
theorem Spelled.shape {fields : List KeptField} (h : Spelled fields) {object : String}
    (hobject : IsName object) (head : FieldHead) (inList embedded : Bool) :
    Spelled [.shape head inList object embedded fields] := by
  refine ⟨?_, ?_⟩
  · rw [objectNamesAll, objectNames, objectNamesAll, List.append_nil]
    exact List.forall_mem_append.2 ⟨h.objects, List.forall_mem_singleton.2 hobject⟩
  · rw [enumsAll, KeptField.enums, enumsAll, List.append_nil]
    exact h.enums

theorem Spelled.ofNested {fields : List KeptField} (h : Spelled fields) {object : String}
    (hobject : IsName object) (head : FieldHead) (inList : Bool) :
    Spelled (ofNested head inList object fields).toList := by
  cases fields with
  | nil => exact spelled_nil
  | cons first rest => exact h.shape hobject head inList false

theorem spelled_ofScalar {typeName : String} (h : IsName typeName) (head : FieldHead) (inList : Bool)
    (kind : ScalarKind) (values : List String) :
    Spelled [ofScalar head inList typeName kind values] := by
  rw [ofScalar]
  split
  · exact spelled_value head _ fun _ henum => absurd henum List.not_mem_nil
  · refine spelled_value head _ (List.forall_mem_singleton.2 ?_)
    refine List.forall_mem_cons.2 ⟨h.enumType head.source, fun name hname => ?_⟩
    obtain ⟨item, hitem, rfl⟩ := List.mem_map.1 hname
    obtain ⟨value, -, rfl⟩ := List.mem_map.1 hitem
    exact Naming.isName_sanitize value

section Keep

variable {settings : SynthSettings}

/-- An embedded shape has the type met before, or keeps its fields here. -/
theorem spelled_embedded {head : FieldHead} {inList : Bool} {model : String}
    {decls : List FieldDecl}
    (h : ∀ seen : Seen, Spelled ((keepAll settings (Naming.embeddedType model) decls).run seen).1)
    (seen : Seen) :
    Spelled ((do
        match ← meet model with
        | some known => pure (known.map fun type => value head (.listIf inList type) [])
        | none =>
          let kept ← keepAll settings (Naming.embeddedType model) decls
          ofEmbedded head inList (Naming.embeddedType model) kept : StateM Seen _).run seen).1.toList := by
  rw [run_bind]
  cases hmeet : ((meet model).run seen).1 with
  | some known =>
    cases known with
    | none => exact spelled_nil
    | some type => exact spelled_value head _ fun _ henum => absurd henum List.not_mem_nil
  | none =>
    dsimp only
    rw [run_bind]
    have hfields := h ((meet model).run seen).2
    cases hkept : ((keepAll settings (Naming.embeddedType model) decls).run
      ((meet model).run seen).2).1 with
    | nil => exact spelled_nil
    | cons first rest =>
      rw [hkept] at hfields
      exact hfields.shape (Naming.isName_embeddedType model) head inList true

mutual

/-- Below a valid name, what fields add has valid names. -/
theorem spelled_keepAll {typeName : String} (h : IsName typeName) : (decls : List FieldDecl) →
    (seen : Seen) → Spelled ((keepAll settings typeName decls).run seen).1
  | [], seen => by
    rw [keepAll]
    exact spelled_nil
  | decl :: rest, seen => by
    rw [keepAll, run_bind, run_bind]
    exact (spelled_keep h decl seen).append (spelled_keepAll h rest _)

theorem spelled_keep {typeName : String} (h : IsName typeName) : (decl : FieldDecl) →
    (seen : Seen) → Spelled ((keep settings typeName decl).run seen).1.toList
  | ⟨source, content, nonNull, isHidden, description, hooks⟩, seen => by
    rw [keep]
    split
    · exact spelled_nil
    · exact spelled_keepShape h ⟨source, nonNull, description, hooks⟩ content seen

theorem spelled_keepShape {typeName : String} (h : IsName typeName) (head : FieldHead) :
    (content : FieldShape FieldDecl) → (seen : Seen) →
      Spelled ((keepShape settings typeName head content).run seen).1.toList
  | .scalar kind values, seen => by
    rw [keepShape]
    exact spelled_ofScalar h head false kind values
  | .list element, seen => by
    rw [keepShape]
    exact spelled_keepElement h head element seen
  | .nested decls, seen => by
    rw [keepShape, run_bind]
    exact (spelled_keepAll (h.nestedType head.source) decls seen).ofNested
      (h.nestedType head.source) head false
  | .embedded model decls, seen => by
    rw [keepShape]
    exact spelled_embedded (spelled_keepAll (Naming.isName_embeddedType model) decls) seen
  | .reference target cardinality, seen => by
    rw [keepShape]
    exact spelled_reference head target cardinality

theorem spelled_keepElement {typeName : String} (h : IsName typeName) (head : FieldHead) :
    (element : ElementShape FieldDecl) → (seen : Seen) →
      Spelled ((keepElement settings typeName head element).run seen).1.toList
  | .scalar kind values, seen => by
    rw [keepElement]
    exact spelled_ofScalar h head true kind values
  | .nested decls, seen => by
    rw [keepElement, run_bind]
    exact (spelled_keepAll (h.nestedType head.source) decls seen).ofNested
      (h.nestedType head.source) head true
  | .embedded model decls, seen => by
    rw [keepElement]
    exact spelled_embedded (spelled_keepAll (Naming.isName_embeddedType model) decls) seen

end

end Keep

end KeptField

/-! ### Building -/

/-- A field with a valid name, whose arguments have valid names. -/
structure OutputField.Spelled (field : OutputField) : Prop where
  name : IsName field.name
  args : ∀ arg ∈ field.args, IsName arg.name

/-- An arena whose finished types and mirrors have fields with valid names. -/
structure Arena.Spelled (arena : Arena) : Prop where
  objects : ∀ name type, arena.objects.get? name = some type →
    ∀ field ∈ type.fields.values, field.Spelled
  inputs : arena.inputs.All fun input => ∀ name ∈ input.fields.keys, IsName name

theorem Arena.spelled_empty : Arena.Spelled {} where
  objects _ _ h := by cases h
  inputs _ _ h := by cases h

/-- Deriving the arguments of a field keeps an arena spelled. -/
theorem Arena.Spelled.argumentsOf {arena : Arena} (h : arena.Spelled) (type : FieldType) :
    let result := (Arena.argumentsOf type).run arena
    result.2.Spelled ∧ ∀ arg ∈ result.1, IsName arg.name := by
  rw [run_argumentsOf]
  split
  · exact ⟨h, fun _ harg => absurd harg List.not_mem_nil⟩
  · have hcopies : Mirrors.Copies (fun input => ∀ name ∈ input.fields.keys, IsName name)
        arena.objects := by
      intro object source hget fields hnames _ name hname
      obtain ⟨field, hfield, rfl⟩ := List.mem_map.1 (hnames name hname)
      exact (h.objects object source hget field hfield).name
    exact ⟨⟨h.objects, (Arguments.all_derive hcopies type h.inputs).1⟩,
      Arguments.isName_derive arena.objects type arena.inputs⟩

namespace KeptField

section Build

variable (owner : String)

mutual

theorem spelled_buildType (path : String) : (kept : KeptField) → (arena : Arena) →
    arena.Spelled → ((buildType owner path kept).run arena).2.Spelled
  | .value _ _ _, arena, h => by
    rw [buildType]
    exact ⟨h.objects, h.inputs⟩
  | .reference _ _ _, arena, h => by
    rw [buildType]
    exact ⟨h.objects, h.inputs⟩
  | .shape head inList object embedded fields, arena, h => by
    obtain ⟨hbuilt, hfields⟩ := spelled_buildAll (Path.child path head.source) fields ∅ arena h
      fun _ hfield => absurd hfield List.not_mem_nil
    rw [buildType]
    refine ⟨fun name type hget => ?_, hbuilt.inputs⟩
    change OrderedMap.get? (OrderedMap.insert _ _ _) name = some type at hget
    rw [OrderedMap.get?_insert] at hget
    split at hget
    · obtain rfl := Option.some.inj hget
      exact hfields
    · exact hbuilt.objects name type hget

/-- Building fields keeps an arena spelled, and the output fields are spelled too. -/
theorem spelled_buildAll (path : String) : (kept : List KeptField) →
    (done : OrderedMap String OutputField) → (arena : Arena) → arena.Spelled →
    (∀ field ∈ done.values, field.Spelled) →
      let built := (buildAll owner path kept done).run arena
      built.2.Spelled ∧ ∀ field ∈ built.1.values, field.Spelled
  | [], done, arena, h, hdone => by
    rw [buildAll]
    exact ⟨h, hdone⟩
  | kept :: rest, done, arena, h, hdone => by
    have htyped := spelled_buildType path kept arena h
    let typed := (buildType owner path kept).run arena
    obtain ⟨hplaced, hargs⟩ := htyped.argumentsOf
      (if kept.head.nonNull && !typed.1.isUnresolved then typed.1.asNonNull else typed.1)
    let placed := (output kept.head typed.1).run typed.2
    have hfield : placed.1.Spelled := ⟨Naming.isName_sanitize kept.head.source, hargs⟩
    rw [buildAll]
    refine spelled_buildAll path rest (done.insert placed.1.name placed.1) placed.2 hplaced
      fun field hmem => ?_
    rcases OrderedMap.mem_values_insert hmem with rfl | hmem
    · exact hfield
    · exact hdone field hmem

end

end Build

end KeptField

/-! ### Runs -/

namespace Run

variable (run : Run) (models : List ModelDecl)

/-- The fields of the first phase of a run are spelled. -/
theorem spelled_layOut : (run.layOut models).Spelled ∧
    ∀ name root, (run.layOut models).roots.get? name = some root →
      ∀ field ∈ root.fields.values, field.Spelled := by
  refine run.layOut_induct models (P := fun _ arena => arena.Spelled ∧
    ∀ name root, arena.roots.get? name = some root → ∀ field ∈ root.fields.values, field.Spelled)
    ⟨Arena.spelled_empty, fun _ _ h => by cases h⟩ fun _ arena model _ h => ?_
  let kept := ((model.keep run.settings).run arena.seen).1
  obtain ⟨hbuilt, hfields⟩ := KeptField.spelled_buildAll kept.owner "" kept.fields ∅ arena h.1
    fun _ hfield => absurd hfield List.not_mem_nil
  rw [Arena.run_addModel_kept]
  refine ⟨⟨hbuilt.objects, hbuilt.inputs⟩, fun name root hget field hfield => ?_⟩
  change OrderedMap.get? (OrderedMap.insert _ _ _) name = some root at hget
  rw [OrderedMap.get?_insert] at hget
  split at hget
  · obtain rfl := Option.some.inj hget
    rcases Arena.mem_values_rootOf hfield with hfield | rfl
    · exact hfields field hfield
    · exact ⟨show IsName Identity.field by decide, fun _ harg => absurd harg List.not_mem_nil⟩
  · exact h.2 name root hget field hfield

/-- The models of a run have valid names, and so has all that they add. -/
theorem spelled_kept {kept : KeptModel} (h : kept ∈ run.kept models) :
    IsName kept.owner ∧ KeptField.Spelled kept.fields := by
  obtain ⟨model, -, seen, rfl⟩ := exists_of_mem_mapM h
  exact ⟨Naming.isName_sanitize model.name,
    KeptField.spelled_keepAll (Naming.isName_sanitize model.name) model.ownFields seen⟩

theorem isName_slotOwner {slot : ReferenceSlot}
    (h : slot ∈ (run.kept models).flatMap KeptModel.slots) : IsName slot.owner := by
  obtain ⟨kept, hkept, hslot⟩ := List.mem_flatMap.1 h
  obtain ⟨reference, -, rfl⟩ := List.mem_map.1 hslot
  exact (run.spelled_kept models hkept).1

/-- What the fields of a run may mention has valid names. -/
theorem valid_words : (run.words models).Within .valid where
  objects name h := by
    rcases h with h | ⟨slot, -, rfl⟩
    · obtain ⟨kept, hkept, hname⟩ := List.mem_flatMap.1 h
      exact (run.spelled_kept models hkept).2.objects name hname
    · exact Naming.isName_sanitize slot.target
  enums name h := by
    obtain ⟨kept, hkept, hname⟩ := List.mem_flatMap.1 h
    rw [KeptModel.enumNames, ← KeptField.map_name_enumsAll] at hname
    obtain ⟨enum, henum, rfl⟩ := List.mem_map.1 hname
    exact (run.spelled_kept models hkept).2.enums enum henum _ (List.mem_cons_self ..)
  connections name h := by
    obtain ⟨kept, hkept, hname⟩ := List.mem_flatMap.1 h
    obtain ⟨slot, hslot, rfl⟩ := List.mem_map.1 hname
    have hmem := List.mem_flatMap.2 ⟨kept, hkept, (List.mem_filter.1 hslot).1⟩
    exact (run.isName_slotOwner models hmem).connectionType slot.path

variable {run models}

theorem isName_object {name : String} (h : name ∈ (run.layOut models).objects.keys) :
    IsName name :=
  (run.valid_words models).objects name (.inl ((run.holds models).mem_objects.1 h))

/-- What arguments and mirrors mention has a valid name. -/
theorem isName_arg {type : ArgType} (h : type.Uses (run.words models) (run.layOut models).inputs) :
    IsName type.innermost := by
  rcases h with hbuiltIn | henum | hmirror
  · exact isName_builtIn hbuiltIn
  · exact (run.valid_words models).enums _ henum
  · obtain ⟨object, hobject, heq⟩ := (run.tidy models).mirrored _ hmirror
    exact heq ▸ (isName_object hobject).inputType

/-- All names in a type with fields are valid, once its slots are resolved. -/
theorem isName_holder {holder : Holder} {type : ObjectType}
    (h : (run.layOut models).settled.holder? holder = some type) (hname : IsName type.name) :
    ∀ name ∈ type.names, IsName name := by
  have hfields : ∀ field ∈ type.fields.values, field.Spelled := by
    intro field hfield
    obtain ⟨key, hget⟩ := OrderedMap.mem_values_iff.1 hfield
    obtain ⟨old, hold, heq⟩ := Arena.exists_fieldAt?_settleAll
      (show (run.layOut models).settled.fieldAt? ⟨holder, key⟩ = some field from
        Option.bind_eq_some_iff.2 ⟨type, h, hget⟩)
    obtain ⟨before, hbefore, hold⟩ := Option.bind_eq_some_iff.1 hold
    have hmem := OrderedMap.mem_values_iff.2 ⟨key, hold⟩
    have hspelled : old.Spelled := by
      cases holder with
      | root name => exact (run.spelled_layOut models).2 name before hbefore old hmem
      | object name => exact (run.spelled_layOut models).1.objects name before hbefore old hmem
    rw [heq]
    exact ⟨hspelled.name, hspelled.args⟩
  rw [ObjectType.names]
  refine List.forall_mem_append.2 ⟨List.forall_mem_cons.2 ⟨hname, fun key hkey => ?_⟩,
    fun name hmem => ?_⟩
  · obtain ⟨field, hget⟩ := OrderedMap.mem_keys_iff.1 hkey
    have hkey : field.name = key := ((furnished_settled h).2 key field hget).name_eq
    exact hkey ▸ (hfields field (OrderedMap.mem_values_iff.2 ⟨key, hget⟩)).name
  · obtain ⟨field, hfield, hmem⟩ := List.mem_flatMap.1 hmem
    have huses := uses_of_holder? h field hfield
    rw [OutputField.names] at hmem
    rcases List.mem_append.1 hmem with hmem | hmem
    · rcases List.mem_cons.1 hmem with rfl | hmem
      · exact (hfields field hfield).name
      · exact (huses.type.mono (run.valid_words models)).isName name hmem
    · obtain ⟨arg, harg, hmem⟩ := List.mem_flatMap.1 hmem
      rcases List.mem_cons.1 hmem with rfl | hmem
      · exact (hfields field hfield).args arg harg
      · obtain rfl := List.mem_singleton.1 hmem
        exact isName_arg (huses.args arg harg)

/-- All names in a root of a run are valid. -/
theorem isName_root {name : String} {root : ObjectType}
    (h : (run.layOut models).settled.roots.get? name = some root) :
    ∀ name ∈ root.names, IsName name := by
  have hkey := OrderedMap.mem_keys_of_get? h
  rw [(Arena.settled_frame _).1, (run.holds models).roots] at hkey
  obtain ⟨kept, hkept, howner⟩ := List.mem_map.1 hkey
  have hholder : (run.layOut models).settled.holder? (.root name) = some root := h
  refine isName_holder hholder ?_
  rw [(furnished_settled hholder).1]
  exact howner ▸ (run.spelled_kept models hkept).1

/-- All names in a named type of a run are valid. -/
theorem isName_type {name : String} {type : NamedType}
    (h : (run.layOut models).settled.namedTypes.get? name = some type) :
    ∀ name ∈ type.names, IsName name := by
  have hname : type.name = name := name_of_namedTypes h
  obtain ⟨-, hobjects, henums, hinputs⟩ := Arena.settled_frame (run.layOut models)
  rw [Arena.get?_namedTypes] at h
  rcases Option.or_eq_some_iff.1 h with hconnection | ⟨-, h⟩
  · obtain ⟨connection, hfound, rfl⟩ := Option.map_eq_some_iff.1 hconnection
    obtain ⟨slot, hslot, -, rfl, -⟩ := run.exists_slot_of_connection models hfound
    have howner := run.isName_slotOwner models hslot
    exact List.forall_mem_cons.2 ⟨howner.connectionType slot.path,
      List.forall_mem_cons.2 ⟨howner.edgeType slot.path,
        List.forall_mem_singleton.2 (Naming.isName_sanitize slot.target)⟩⟩
  rcases Option.or_eq_some_iff.1 h with hinput | ⟨-, h⟩
  · obtain ⟨input, hfound, rfl⟩ := Option.map_eq_some_iff.1 hinput
    rw [hinputs] at hfound
    obtain ⟨object, hobject, heq⟩ :=
      (run.tidy models).mirrored name (OrderedMap.mem_keys_of_get? hfound)
    have hinput : IsName input.name := by
      rw [show input.name = Naming.inputType object from hname.trans heq]
      exact (isName_object hobject).inputType
    refine List.forall_mem_append.2 ⟨List.forall_mem_cons.2 ⟨hinput,
      ((run.spelled_layOut models).1.inputs name input hfound).2⟩, fun other hother => ?_⟩
    obtain ⟨arg, harg, rfl⟩ := List.mem_map.1 hother
    exact isName_arg (((run.tidy models).inputs name input hfound).2 arg harg)
  rcases Option.or_eq_some_iff.1 h with henum | ⟨-, hobject⟩
  · obtain ⟨enum, hfound, rfl⟩ := Option.map_eq_some_iff.1 henum
    rw [henums, (run.holds models).enums] at hfound
    obtain ⟨other, hother, heq⟩ := List.mem_map.1 (OrderedMap.mem_of_get?_ofList hfound)
    obtain ⟨-, rfl⟩ := Prod.mk.inj heq
    obtain ⟨kept, hkept, hmem⟩ := List.mem_flatMap.1 hother
    exact (run.spelled_kept models hkept).2.enums _ hmem
  · obtain ⟨object, hfound, rfl⟩ := Option.map_eq_some_iff.1 hobject
    have hkey := OrderedMap.mem_keys_of_get? hfound
    rw [hobjects] at hkey
    refine isName_holder (show (run.layOut models).settled.holder? (.object name) = some object from
      hfound) ?_
    rw [show object.name = name from hname]
    exact isName_object hkey

end Run

end ModelGraph
