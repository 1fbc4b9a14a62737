import ModelGraph.Proofs.Graph.Mention
import ModelGraph.Proofs.Graph.Settle
import ModelGraph.Proofs.Graph.Tables

/-!
# Types are made for declarations

Every type of a run is laid out for a kept field, whatever names are declared: an enum for a field of
values, an object type for a shape, with a field for each of its fields, and a mirror for a shape,
with arguments for the enums and object types of its fields. Every slot is left behind by a reference.

## Main definitions

- `ArgType.Matches` — an argument type that is built in, or made for one of some field types
- `PlacedField.MakesWith` — the types that are made for a field
- `Arena.Traced` — an arena whose types and slots are all made for given fields

## Main statements

- `Mirrors.all_mirror` — what holds of every mirror that copies an object type holds of all mirrors
- `KeptField.traced_all` — building fields lays out types that are made for them
- `Run.traced` — the types of a run are made for its fields
-/

namespace ModelGraph

/-! ### Arguments -/

/-- The names of the arguments for a type, but for the built-in ones: its enum, or the mirror of its
object type. -/
def FieldType.argNames (type : FieldType) : List String :=
  match type.innermost with
  | .enum name => [name]
  | .object name => [Naming.inputType name]
  | _ => []

theorem FieldType.argNames_nullable (type : FieldType) : type.nullable.argNames = type.argNames := by
  cases type <;> rfl

/-- Whether an argument type is built in, or made for one of some field types. -/
def ArgType.Matches (types : List FieldType) (arg : ArgType) : Prop :=
  Arguments.isBuiltIn arg.innermost = true ∨ ∃ type ∈ types, arg.innermost ∈ type.argNames

theorem ArgType.Matches.mono {types more : List FieldType} {arg : ArgType} (h : arg.Matches types)
    (hmore : types ⊆ more) : arg.Matches more :=
  h.imp_right fun ⟨type, htype, harg⟩ => ⟨type, hmore htype, harg⟩

theorem ArgType.Matches.scalar (types : List FieldType) (kind : OutputScalar) :
    (ArgType.named kind.name).Matches types :=
  .inl (Arguments.isBuiltIn_scalar kind)

theorem ArgType.Matches.congr {type other : FieldType} {arg : ArgType} (h : arg.Matches [type])
    (heq : type.argNames = other.argNames) : arg.Matches [other] := by
  simpa only [Matches, List.mem_singleton, exists_eq_left, heq] using h

namespace Mirrors

variable (objects : OrderedMap String ObjectType)

/-- A mirror has the name that is made for its object type. -/
theorem eq_of_run_mirror {available : OrderedMap String ObjectType} {object name : String}
    {mirrors : Mirrors} (h : ((mirror objects available object).run mirrors).1 = some name) :
    name = Naming.inputType object := by
  rw [run_mirror] at h
  split at h
  · exact (Option.some.inj h).symm
  · cases hsource : available.get? object with
    | none =>
      rw [hsource] at h
      cases h
    | some source =>
      rw [hsource] at h
      dsimp only at h
      split at h
      · cases h
      · exact (Option.some.inj h).symm

/-- The input of a type is built in, or made for it. -/
theorem matches_inputType {available : OrderedMap String ObjectType} {type : FieldType}
    {mirrors : Mirrors} {arg : ArgType}
    (h : ((inputType objects available type).run mirrors).1 = some arg) : arg.Matches [type] := by
  induction type generalizing arg with
  | nonNull inner ih =>
    rw [inputType] at h
    exact (ih h).congr rfl
  | list element ih =>
    rw [run_inputType_list] at h
    obtain ⟨inner, hinner, rfl⟩ := Option.map_eq_some_iff.1 h
    exact (ih hinner).congr rfl
  | scalar kind =>
    rw [inputType] at h
    cases h
    exact .scalar _ kind
  | enum name =>
    rw [inputType] at h
    cases h
    exact .inr ⟨_, List.mem_singleton_self _, List.mem_singleton_self _⟩
  | object name =>
    rw [run_inputType_object] at h
    cases hmirror : ((mirror objects available name).run mirrors).1 with
    | some mirror =>
      simp only [hmirror] at h
      cases h
      obtain rfl := eq_of_run_mirror objects hmirror
      exact .inr ⟨_, List.mem_singleton_self _, List.mem_singleton_self _⟩
    | none =>
      simp only [hmirror] at h
      split at h
      · cases h
      · cases h
        exact .scalar _ .id
  | unresolved slot =>
    rw [inputType] at h
    obtain ⟨owner, path, target, cardinality, nonNull⟩ := slot
    cases cardinality <;> cases h <;> exact .scalar _ .id
  | connection name =>
    rw [inputType] at h
    cases h

/-- The fields of a mirror match those of its object type. -/
theorem matches_mirrorFields {available : OrderedMap String ObjectType} (fields : List OutputField)
    (mirrored : OrderedMap String ArgType) (mirrors : Mirrors) :
    ∀ arg ∈ ((mirrorFields objects available fields mirrored).run mirrors).1.values,
      arg ∈ mirrored.values ∨ arg.Matches (fields.map OutputField.type) := by
  induction fields generalizing mirrored mirrors with
  | nil =>
    rw [mirrorFields]
    exact fun arg h => .inl h
  | cons field rest ih =>
    intro arg harg
    rw [run_mirrorFields_cons] at harg
    have hrest : arg.Matches (rest.map OutputField.type) →
        arg.Matches ((field :: rest).map OutputField.type) := fun h =>
      h.mono (List.subset_cons_self _ _)
    cases htype : ((inputType objects available field.type).run mirrors).1 with
    | none =>
      simp only [htype] at harg
      exact (ih _ _ arg harg).imp_right hrest
    | some type =>
      simp only [htype] at harg
      rcases ih _ _ arg harg with harg | harg
      · rcases OrderedMap.mem_values_insert harg with rfl | harg
        · exact .inr ((matches_inputType objects htype).mono
            (List.cons_subset_cons _ (List.nil_subset _)))
        · exact .inl harg
      · exact .inr (hrest harg)

/-- The fields of a mirror have names of those of its object type. -/
theorem mem_keys_mirrorFields {available : OrderedMap String ObjectType} (fields : List OutputField)
    (mirrored : OrderedMap String ArgType) (mirrors : Mirrors) :
    ∀ name ∈ ((mirrorFields objects available fields mirrored).run mirrors).1.keys,
      name ∈ mirrored.keys ∨ name ∈ fields.map OutputField.name := by
  induction fields generalizing mirrored mirrors with
  | nil =>
    rw [mirrorFields]
    exact fun name h => .inl h
  | cons field rest ih =>
    intro name hname
    rw [run_mirrorFields_cons] at hname
    rw [List.map_cons]
    cases htype : ((inputType objects available field.type).run mirrors).1 with
    | none =>
      simp only [htype] at hname
      exact (ih _ _ name hname).imp_right (List.mem_cons_of_mem _)
    | some type =>
      simp only [htype] at hname
      rcases ih _ _ name hname with hname | hname
      · rcases OrderedMap.mem_keys_insert.1 hname with rfl | hname
        · exact .inr (List.mem_cons_self ..)
        · exact .inl hname
      · exact .inr (List.mem_cons_of_mem _ hname)

/-- Whether a property holds of all mirrors. -/
def All (P : InputType → Prop) (mirrors : Mirrors) : Prop :=
  ∀ name type, mirrors.get? name = some type → type.name = name ∧ P type

/-- Whether a property holds of every mirror that copies one of some object types. -/
def Copies (P : InputType → Prop) (available : OrderedMap String ObjectType) : Prop :=
  ∀ object source, available.get? object = some source → ∀ fields : OrderedMap String ArgType,
    (∀ name ∈ fields.keys, name ∈ source.fields.values.map OutputField.name) →
    (∀ arg ∈ fields.values, arg.Matches (source.fields.values.map OutputField.type)) →
      P ⟨Naming.inputType object, fields⟩

section All

variable {P : InputType → Prop}

theorem All.insert {mirrors : Mirrors} (h : mirrors.All P) {name : String}
    {fields : OrderedMap String ArgType} (htype : P ⟨name, fields⟩) :
    All P (mirrors.insert name ⟨name, fields⟩) := by
  intro other type hget
  rw [OrderedMap.get?_insert] at hget
  split at hget
  · next heq =>
    cases hget
    exact ⟨heq, htype⟩
  · exact h other type hget

theorem All.erase {mirrors : Mirrors} (h : mirrors.All P) (name : String) :
    All P (mirrors.erase name) := by
  intro other type hget
  rw [OrderedMap.get?_erase] at hget
  split at hget
  · cases hget
  · exact h other type hget

theorem Copies.erase {available : OrderedMap String ObjectType} (h : Copies P available)
    (object : String) : Copies P (available.erase object) := by
  intro other source hget
  rw [OrderedMap.get?_erase] at hget
  split at hget
  · cases hget
  · exact h other source hget

mutual

/-- Building a mirror keeps what holds of every mirror that copies an object type. -/
theorem all_mirror (available : OrderedMap String ObjectType) (hcopies : Copies P available)
    (object : String) (mirrors : Mirrors) (h : mirrors.All P) :
    All P ((mirror objects available object).run mirrors).2 := by
  rw [run_mirror]
  split
  · exact h
  · cases hfound : available.get? object with
    | none => exact h
    | some source =>
      let announced := mirrors.insert (Naming.inputType object) ⟨Naming.inputType object, ∅⟩
      have hannounced : All P announced :=
        h.insert (hcopies object source hfound ∅ (fun _ hname => absurd hname List.not_mem_nil)
          fun _ harg => absurd harg List.not_mem_nil)
      have hinner := all_mirrorFields (available.erase object) (hcopies.erase object)
        source.fields.values ∅ announced hannounced
      dsimp only
      split
      · exact hinner.erase _
      · refine hinner.insert (hcopies object source hfound _ (fun name hname => ?_)
          fun arg harg => ?_)
        · exact (mem_keys_mirrorFields objects _ _ _ name hname).resolve_left List.not_mem_nil
        · exact (matches_mirrorFields objects _ _ _ arg harg).resolve_left List.not_mem_nil
termination_by (available.size, 0, 0)
decreasing_by exact Prod.Lex.left _ _ (OrderedMap.size_erase_lt hfound)

theorem all_mirrorFields (available : OrderedMap String ObjectType) (hcopies : Copies P available)
    (fields : List OutputField) (mirrored : OrderedMap String ArgType) (mirrors : Mirrors)
    (h : mirrors.All P) : All P ((mirrorFields objects available fields mirrored).run mirrors).2 :=
  match fields with
  | [] => by
    rw [mirrorFields]
    exact h
  | field :: rest => by
    have hfirst := all_inputType available hcopies field.type mirrors h
    rw [run_mirrorFields_cons]
    cases htype : ((inputType objects available field.type).run mirrors).1 with
    | none =>
      simp only [htype]
      exact all_mirrorFields available hcopies rest _ _ hfirst
    | some type =>
      simp only [htype]
      exact all_mirrorFields available hcopies rest _ _ hfirst
termination_by (available.size, 2, fields.length)

theorem all_inputType (available : OrderedMap String ObjectType) (hcopies : Copies P available)
    (type : FieldType) (mirrors : Mirrors) (h : mirrors.All P) :
    All P ((inputType objects available type).run mirrors).2 :=
  match type with
  | .nonNull inner => by
    rw [inputType]
    exact all_inputType available hcopies inner mirrors h
  | .list element => by
    rw [run_inputType_list]
    exact all_inputType available hcopies element mirrors h
  | .object name => by
    have hmirror := all_mirror available hcopies name mirrors h
    rw [run_inputType_object]
    cases hfound : ((mirror objects available name).run mirrors).1 <;>
      simp only [hfound] <;> exact hmirror
  | .scalar _ | .enum _ | .unresolved _ | .connection _ => by
    rw [inputType]
    exact h
termination_by (available.size, 1, sizeOf type)

end

end All

end Mirrors

namespace Arguments

theorem matches_comparison {types : List FieldType} {element : String}
    (h : (ArgType.named element).Matches types) :
    ∀ arg ∈ comparison element, arg.type.Matches types := by
  intro arg harg
  rcases List.mem_append.1 harg with harg | harg
  · obtain ⟨name, -, rfl⟩ := List.mem_map.1 harg
    split <;> exact h
  · simp only [List.mem_cons, List.not_mem_nil, or_false] at harg
    rcases harg with rfl | rfl | rfl <;> exact .inl (by decide)

theorem matches_array {types : List FieldType} {mirror : Option String}
    (h : ∀ name, mirror = some name → (ArgType.named name).Matches types) :
    ∀ arg ∈ array mirror, arg.type.Matches types := by
  intro arg harg
  cases mirror with
  | none =>
    obtain rfl := List.mem_singleton.1 harg
    exact .scalar _ _
  | some name =>
    simp only [array, List.mem_cons, List.not_mem_nil, or_false] at harg
    rcases harg with rfl | rfl | rfl
    · exact h name rfl
    · exact .scalar _ _
    · exact h name rfl

/-- The arguments of a field match its type, and what holds of every mirror that copies an object
type holds of the new ones. -/
theorem all_derive {P : InputType → Prop} {objects : OrderedMap String ObjectType}
    (hcopies : Mirrors.Copies P objects) (type : FieldType) {mirrors : Mirrors}
    (h : mirrors.All P) :
    let result := (derive objects type).run mirrors
    result.2.All P ∧ ∀ arg ∈ result.1, arg.type.Matches [type] := by
  have hnone : ∀ args : List Argument, (∀ arg ∈ args, arg.type.Matches [type]) →
      mirrors.All P ∧ ∀ arg ∈ args, arg.type.Matches [type] := fun _ hargs => ⟨h, hargs⟩
  have hscalar : ∀ kind : OutputScalar, ∀ arg ∈ comparison kind.name, arg.type.Matches [type] :=
    fun kind => matches_comparison (.scalar _ kind)
  have hnullable := type.argNames_nullable
  rw [derive]
  cases hcore : type.nullable with
  | scalar kind => exact hnone _ (hscalar kind)
  | enum name =>
    rw [hcore] at hnullable
    exact hnone _ (matches_comparison (.inr ⟨type, List.mem_singleton_self _,
      hnullable ▸ List.mem_singleton_self name⟩))
  | object _ | connection _ | nonNull _ | unresolved _ =>
    exact hnone _ fun _ harg => absurd harg List.not_mem_nil
  | list element =>
    rw [hcore] at hnullable
    have helement : element.nullable.argNames = type.argNames :=
      element.argNames_nullable.trans hnullable
    dsimp only
    cases hinner : element.nullable with
    | scalar kind => exact hnone _ (hscalar kind)
    | enum name =>
      rw [hinner] at helement
      exact hnone _ (matches_comparison (.inr ⟨type, List.mem_singleton_self _,
        helement ▸ List.mem_singleton_self name⟩))
    | list _ | connection _ | nonNull _ | unresolved _ =>
      exact hnone _ fun _ harg => absurd harg List.not_mem_nil
    | object name =>
      rw [hinner] at helement
      refine ⟨Mirrors.all_mirror objects objects hcopies name mirrors h,
        matches_array fun mirror hmirror => ?_⟩
      obtain rfl := Mirrors.eq_of_run_mirror objects hmirror
      exact .inr ⟨type, List.mem_singleton_self _, helement ▸ List.mem_singleton_self _⟩

end Arguments

/-! ### What is made for a field -/

namespace KeptField

/-- Whether an output field is laid out for one of kept fields, with a type that is told by
`typeOf`. -/
def FieldOf (typeOf : String → String → KeptField → FieldType) (owner path : String)
    (fields : List KeptField) (field : OutputField) : Prop :=
  ∃ kept ∈ fields, field.outline = kept.outline ∧ field.type = typeOf owner path kept ∧
    ∀ arg ∈ field.args, arg.type.Matches [outputType owner path kept]

theorem FieldOf.mono {typeOf : String → String → KeptField → FieldType} {owner path : String}
    {fields more : List KeptField} {field : OutputField} (h : FieldOf typeOf owner path fields field)
    (hmore : fields ⊆ more) : FieldOf typeOf owner path more field := by
  obtain ⟨kept, hkept, hrest⟩ := h
  exact ⟨kept, hmore hkept, hrest⟩

end KeptField

namespace PlacedField

/-- The slot that a reference leaves behind. -/
def slot? (placed : PlacedField) : Option ReferenceSlot :=
  match placed.field with
  | .reference head target cardinality =>
    some ⟨placed.owner, Path.child placed.path head.source, target, cardinality, head.nonNull⟩
  | .value _ _ _ | .shape _ _ _ _ _ => none

/-- Whether a type is made for a field: an enum of it, its connection, the object type of its shape,
or the mirror of that type. The types of the shape's fields are told by `typeOf`. -/
inductive MakesWith (typeOf : String → String → KeptField → FieldType) :
    PlacedField → NamedType → Prop
  | enum {owner path : String} {head : FieldHead} {type : FieldType} {enums : List EnumType}
      {enum : EnumType} : enum ∈ enums →
      MakesWith typeOf ⟨owner, path, .value head type enums⟩ (.enum enum)
  | connection {placed : PlacedField} {slot : ReferenceSlot} : placed.slot? = some slot →
      slot.cardinality = .plural →
      MakesWith typeOf placed (.connection (Arena.connectionOf slot (Naming.sanitize slot.target)))
  | object {owner path name : String} {head : FieldHead} {inList embedded : Bool}
      {fields : List KeptField} {type : ObjectType} : type.name = name →
      type.outline = (KeptShape.mk name embedded fields).outline →
      (∀ field ∈ type.fields.values,
        KeptField.FieldOf typeOf owner (Path.child path head.source) fields field) →
      MakesWith typeOf ⟨owner, path, .shape head inList name embedded fields⟩ (.object type)
  | input {owner path name : String} {head : FieldHead} {inList embedded : Bool}
      {fields : List KeptField} {type : InputType} : type.name = Naming.inputType name →
      (∀ arg ∈ type.fields.values, arg.Matches
        (fields.map (KeptField.outputType owner (Path.child path head.source)))) →
      MakesWith typeOf ⟨owner, path, .shape head inList name embedded fields⟩ (.input type)

/-- Whether a type is laid out for a field, with the slots of references in it. -/
abbrev LaysOut : PlacedField → NamedType → Prop := MakesWith KeptField.outputType

end PlacedField

/-! ### Building -/

namespace Arena

/-- An arena whose types and slots are all made for given fields. -/
structure Traced (all : List PlacedField) (arena : Arena) : Prop where
  objects : ∀ name type, arena.objects.get? name = some type → type.name = name ∧
    ∃ placed ∈ all, placed.LaysOut (.object type)
  enums : ∀ name type, arena.enums.get? name = some type → type.name = name ∧
    ∃ placed ∈ all, placed.LaysOut (.enum type)
  inputs : arena.inputs.All fun type => ∃ placed ∈ all, placed.LaysOut (.input type)
  pending : ∀ slot ∈ arena.pending, ∃ placed ∈ all, placed.slot? = some slot

theorem traced_empty (all : List PlacedField) : Traced all {} where
  objects _ _ h := by cases h
  enums _ _ h := by cases h
  inputs _ _ h := by cases h
  pending _ h := absurd h List.not_mem_nil

section Traced

variable {all : List PlacedField} {arena : Arena}

/-- A mirror of a traced object type is made for its shape. -/
theorem Traced.copies (h : arena.Traced all) :
    Mirrors.Copies (fun type => ∃ placed ∈ all, placed.LaysOut (.input type)) arena.objects := by
  intro object source hget fields _ hfields
  obtain ⟨rfl, placed, hplaced, hmakes⟩ := h.objects object source hget
  cases hmakes with
  | @object owner path name head inList embedded kept type hname houtline hkept =>
    obtain rfl := hname
    refine ⟨_, hplaced, .input rfl fun arg harg => (hfields arg harg).mono fun type htype => ?_⟩
    obtain ⟨field, hfield, rfl⟩ := List.mem_map.1 htype
    obtain ⟨first, hfirst, -, heq, -⟩ := hkept field hfield
    exact List.mem_map.2 ⟨first, hfirst, heq.symm⟩

theorem Traced.argumentsOf (h : arena.Traced all) (type : FieldType) :
    let result := (Arena.argumentsOf type).run arena
    result.2.Traced all ∧ ∀ arg ∈ result.1, arg.type.Matches [type] := by
  rw [run_argumentsOf]
  split
  · exact ⟨h, fun _ harg => absurd harg List.not_mem_nil⟩
  · obtain ⟨hall, hargs⟩ := Arguments.all_derive h.copies type h.inputs
    exact ⟨⟨h.objects, h.enums, hall, h.pending⟩, hargs⟩

theorem Traced.addEnums (h : arena.Traced all) {enums : List EnumType}
    (henums : ∀ enum ∈ enums, ∃ placed ∈ all, placed.LaysOut (.enum enum)) :
    Traced all { arena with
      enums := arena.enums.insertMany (enums.map fun type => (type.name, type)) } := by
  refine ⟨h.objects, fun name type hget => ?_, h.inputs, h.pending⟩
  rcases OrderedMap.mem_of_get?_insertMany hget with hmem | hold
  · obtain ⟨_, henum, ⟨⟩⟩ := List.mem_map.1 hmem
    exact ⟨rfl, henums type henum⟩
  · exact h.enums name type hold

theorem Traced.addShape (h : arena.Traced all) {type : ObjectType} {placed : PlacedField}
    (hplaced : placed ∈ all) (htype : placed.LaysOut (.object type)) :
    Traced all { arena with objects := arena.objects.insert type.name type } := by
  refine ⟨fun name other hget => ?_, h.enums, h.inputs, h.pending⟩
  rw [OrderedMap.get?_insert] at hget
  split at hget
  · next heq =>
    cases hget
    exact ⟨heq, placed, hplaced, htype⟩
  · exact h.objects name other hget

end Traced

end Arena

namespace KeptField

theorem innermost_outputType (owner path : String) (kept : KeptField) :
    (outputType owner path kept).innermost = (bareType owner path kept).innermost := by
  rw [outputType]
  split
  · exact FieldType.innermost_asNonNull _
  · rfl

theorem fst_buildType (owner path : String) (kept : KeptField) (arena : Arena) :
    ((buildType owner path kept).run arena).1 = bareType owner path kept := by
  cases kept <;> rw [buildType, bareType] <;> rfl

section Traced

variable {all : List PlacedField} (owner : String)

mutual

theorem traced_type (path : String) : (kept : KeptField) → placed owner path kept ⊆ all →
    (arena : Arena) → arena.Traced all → ((buildType owner path kept).run arena).2.Traced all
  | .value head type enums, hall, arena, h => by
    rw [buildType]
    exact h.addEnums fun enum henum =>
      ⟨_, hall (mem_placed_self owner path (.value head type enums)), .enum henum⟩
  | .reference head target cardinality, hall, arena, h => by
    rw [buildType]
    refine ⟨h.objects, h.enums, h.inputs, fun slot hslot => ?_⟩
    rcases List.mem_append.1 hslot with hslot | hslot
    · exact h.pending slot hslot
    · obtain rfl := List.mem_singleton.1 hslot
      exact ⟨_, hall (mem_placed_self owner path (.reference head target cardinality)), rfl⟩
  | .shape head inList object embedded fields, hall, arena, h => by
    have hself := hall (mem_placed_self owner path (.shape head inList object embedded fields))
    rw [placed] at hall
    obtain ⟨htraced, hfields⟩ := traced_all (Path.child path head.source) fields
      (List.subset_of_cons_subset hall) fields (List.Subset.refl _) ∅ arena h
      fun _ hfield => absurd hfield List.not_mem_nil
    let built := (buildAll owner (Path.child path head.source) fields ∅).run arena
    have houtlines : built.1.map OutputField.outline = .ofList (outlines fields) :=
      (writes_all owner (Path.child path head.source) fields ∅ arena).2
    have htype : PlacedField.LaysOut ⟨owner, path, .shape head inList object embedded fields⟩
        (.object { name := object, fields := built.1, embedded }) :=
      .object rfl (congrArg (ObjectOutline.mk embedded) houtlines) hfields
    rw [buildType]
    exact htraced.addShape hself htype

/-- Building fields lays out types that are made for them, and an output field for each of them. -/
theorem traced_all (path : String) : (kept : List KeptField) → placedAll owner path kept ⊆ all →
    (fields : List KeptField) → kept ⊆ fields → (done : OrderedMap String OutputField) →
    (arena : Arena) → arena.Traced all →
    (∀ field ∈ done.values, FieldOf outputType owner path fields field) →
      let built := (buildAll owner path kept done).run arena
      built.2.Traced all ∧ ∀ field ∈ built.1.values, FieldOf outputType owner path fields field
  | [], _, _, _, done, arena, h, hdone => by
    rw [buildAll]
    exact ⟨h, hdone⟩
  | kept :: rest, hall, fields, hfields, done, arena, h, hdone => by
    rw [placedAll] at hall
    obtain ⟨hkept, hrest⟩ := List.append_subset.1 hall
    obtain ⟨hmem, hsubset⟩ := List.cons_subset.1 hfields
    have htyped := traced_type path kept hkept arena h
    let typed := (buildType owner path kept).run arena
    have htype : typed.1 = bareType owner path kept := fst_buildType owner path kept arena
    obtain ⟨hplaced, hargs⟩ := htyped.argumentsOf
      (if kept.head.nonNull && !typed.1.isUnresolved then typed.1.asNonNull else typed.1)
    let placed := (output kept.head typed.1).run typed.2
    have hfield : FieldOf outputType owner path fields placed.1 := by
      refine ⟨kept, hmem, rfl, ?_, ?_⟩
      · exact congrArg (fun type => if kept.head.nonNull && !type.isUnresolved then type.asNonNull
          else type) htype
      · rw [outputType, ← htype]
        exact hargs
    rw [buildAll]
    refine traced_all path rest hrest fields hsubset (done.insert placed.1.name placed.1) placed.2
      hplaced fun field hfieldMem => ?_
    rcases OrderedMap.mem_values_insert hfieldMem with rfl | hfieldMem
    · exact hfield
    · exact hdone field hfieldMem

end

end Traced

end KeptField

/-! ### Runs -/

/-- The fields of a model, at any depth, with their places. -/
def KeptModel.placed (model : KeptModel) : List PlacedField :=
  KeptField.placedAll model.owner "" model.fields

namespace Run

variable (run : Run) (models : List ModelDecl)

/-- The kept fields of a run, at any depth, with their places. -/
def placed : List PlacedField := (run.kept models).flatMap KeptModel.placed

/-- A root that is laid out for kept fields: but for the identity field, its fields are those of them. -/
def RootOf (typeOf : String → String → KeptField → FieldType) (kept : KeptModel)
    (root : ObjectType) : Prop :=
  ∀ field ∈ root.fields.values, (∃ source, field = .ofIdentity source) ∨
    KeptField.FieldOf typeOf kept.owner "" kept.fields field

/-- The types of a run are made for its fields, and so are the fields of its roots. -/
theorem traced : (run.layOut models).Traced (run.placed models) ∧
    ∀ name root, (run.layOut models).roots.get? name = some root →
      ∃ kept ∈ run.kept models, kept.owner = name ∧ RootOf KeptField.outputType kept root := by
  -- Types are made for fields of the whole run, so what was made before needs no second look.
  refine run.layOut_induct models (P := fun kept arena =>
    ∀ all : List PlacedField, (∀ model ∈ kept, model.placed ⊆ all) →
      arena.Traced all ∧ ∀ name root, arena.roots.get? name = some root →
        ∃ model ∈ kept, model.owner = name ∧ RootOf KeptField.outputType model root)
    (fun all _ => ⟨Arena.traced_empty all, fun _ _ h => by cases h⟩) ?_ (run.placed models)
    fun kept hkept placed hplaced => List.mem_flatMap.2 ⟨kept, hkept, hplaced⟩
  intro before arena model _ h all hall
  let kept := ((model.keep run.settings).run arena.seen).1
  have hself : kept ∈ before ++ [kept] := List.mem_append_right _ (List.mem_singleton_self _)
  obtain ⟨htraced, hroots⟩ := h all fun model hmodel => hall model (List.mem_append_left _ hmodel)
  obtain ⟨hbuilt, hfields⟩ := KeptField.traced_all kept.owner "" kept.fields (hall kept hself)
    kept.fields (List.Subset.refl _) ∅ arena htraced fun _ hfield => absurd hfield List.not_mem_nil
  rw [Arena.run_addModel_kept]
  refine ⟨⟨hbuilt.objects, hbuilt.enums, hbuilt.inputs, hbuilt.pending⟩, fun name root hget => ?_⟩
  change OrderedMap.get? (OrderedMap.insert _ _ _) name = some root at hget
  rw [OrderedMap.get?_insert] at hget
  split at hget
  · next heq =>
    obtain rfl := Option.some.inj hget
    refine ⟨kept, hself, heq, fun field hfield => ?_⟩
    exact (Arena.mem_values_rootOf hfield).symm.imp (fun heq => ⟨_, heq⟩) (hfields field)
  · obtain ⟨other, hother, hrest⟩ := hroots name root hget
    exact ⟨other, List.mem_append_left _ hother, hrest⟩

end Run

end ModelGraph
