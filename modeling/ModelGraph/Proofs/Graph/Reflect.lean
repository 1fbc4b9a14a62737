import ModelGraph.Proofs.Graph.Enclose
import ModelGraph.Proofs.Graph.Matching
import ModelGraph.Proofs.Graph.Retyped

/-!
# Mirrors that reflect their objects

Arguments are derived while types are laid out, so a mirror is made of the objects that are finished
by then. All of these have fields that can be matched, so a list of objects has a mirror when the
objects are finished, and a mirror has an input for every field of its object. What is not finished
when a field is built encloses it, so only fields that lead back to a shape around them do without
the mirror of this shape.

The invariant is that of a place between shapes that are finished and shapes to come. Each shape
moves from the second ones to the first ones when its fields are built.

## Main definitions

- `OutputField.Aware` — a field with the arguments that it can have when it is built
- `InputType.Reflects` — a mirror with an input for every field of its object
- `Arena.Reflecting` — objects with such fields and mirrors
- `Arena.Site` — what holds where fields are built

## Main statements

- `Arena.Reflecting.derive`, `Arena.Reflecting.addShape` — what the steps of laying out keep
- `KeptField.site_buildAll` — building fields moves on behind their shapes
-/

namespace ModelGraph

/-! ### Searching when every object has fields -/

namespace FieldType

theorem matchable_of_uses {objects : OrderedMap String ObjectType} {known : String → Prop}
    {type : FieldType} (h : type.Uses (.ofObjects known)) :
    type.Matchable objects {name | name ∈ objects.keys} := by
  induction type with
  | scalar | enum | unresolved => trivial
  | object name => exact (em (name ∈ objects.keys)).symm
  | connection => exact h.elim
  | list element ih => exact ih h
  | nonNull inner ih => exact ih h

theorem innermost_of_listedObject? {type : FieldType} {object : String}
    (h : type.listedObject? = some object) : type.innermost = .object object := by
  have hnullable : ∀ type : FieldType, type.nullable.innermost = type.innermost := by
    intro type
    cases type <;> rfl
  rw [listedObject?] at h
  rw [← hnullable]
  cases htype : type.nullable <;> rw [htype] at h <;> try cases h
  next element =>
    dsimp only at h
    change element.innermost = _
    rw [← hnullable]
    cases helement : element.nullable <;> rw [helement] at h <;> cases h
    rfl

end FieldType

namespace Mirrors

/-- Whether every object has a field, and no field is of connections. -/
structure Filled (objects : OrderedMap String ObjectType) : Prop where
  nonempty : ∀ name type, objects.get? name = some type → type.fields.isEmpty = false
  plain : ∀ name type, objects.get? name = some type → ∀ field ∈ type.fields.values,
    field.type.Uses (.ofObjects fun _ => True)

section Filled

variable {objects : OrderedMap String ObjectType} (h : Filled objects)

include h

theorem Filled.exists_field {name : String} {type : ObjectType}
    (hget : objects.get? name = some type) : ∃ field, field ∈ type.fields.values := by
  have hempty := h.nonempty name type hget
  rw [OrderedMap.isEmpty, List.isEmpty_eq_false_iff] at hempty
  obtain ⟨entry, hentry⟩ := List.exists_mem_of_ne_nil _ hempty
  exact ⟨entry.2, List.mem_map_of_mem hentry⟩

/-- Every object can be matched. -/
theorem Filled.mirrorable_eq : mirrorable objects = {name | name ∈ objects.keys} := by
  have hlargest : IsGreatest {set | Sustained objects set} (mirrorable objects) :=
    isGreatest_mirrorable
  obtain ⟨hsustained, hgreatest⟩ := hlargest
  refine Set.Subset.antisymm (fun name hname => ?_) (hgreatest fun name hname => ?_)
  · obtain ⟨source, hget, -⟩ := hsustained name hname
    exact OrderedMap.mem_keys_of_get? hget
  · obtain ⟨source, hget⟩ := OrderedMap.mem_keys_iff.1 hname
    obtain ⟨field, hfield⟩ := h.exists_field hget
    exact ⟨source, hget, field, hfield,
      FieldType.matchable_of_uses (h.plain name source hget field hfield)⟩

open Classical in
/-- A mirror has an input for every field. -/
theorem Filled.mirrorOf_fields {object : String} {source : ObjectType}
    (hget : objects.get? object = some source)
    (hnames : ∀ key field, source.fields.get? key = some field → field.name = key) :
    (mirrorOf objects (mirrorable objects) object source).fields =
      source.fields.map fun field => field.type.input objects := by
  have hall : matched objects (mirrorable objects) source.fields.values =
      source.fields.values.map fun field => (field.name, field.type.input objects) := by
    rw [matched, List.filter_eq_self.2]
    intro field hfield
    rw [decide_eq_true_iff, h.mirrorable_eq]
    exact FieldType.matchable_of_uses (h.plain object source hget field hfield)
  rw [mirrorOf, hall]
  exact OrderedMap.ofList_map_values hnames

theorem Filled.insert {name : String} {type : ObjectType} (hnonempty : type.fields.isEmpty = false)
    (hplain : ∀ field ∈ type.fields.values, field.type.Uses (.ofObjects fun _ => True)) :
    Filled (objects.insert name type) := by
  have hor : ∀ other found, (objects.insert name type).get? other = some found →
      found = type ∨ objects.get? other = some found := by
    intro other found hget
    rw [OrderedMap.get?_insert] at hget
    split at hget
    · exact .inl (Option.some.inj hget).symm
    · exact .inr hget
  refine ⟨fun other found hget => ?_, fun other found hget => ?_⟩
  · rcases hor other found hget with rfl | hget
    · exact hnonempty
    · exact h.nonempty other found hget
  · rcases hor other found hget with rfl | hget
    · exact hplain
    · exact h.plain other found hget

theorem Filled.honest_mono {larger : OrderedMap String ObjectType} (hlarger : Filled larger)
    (hkeys : ∀ name ∈ objects.keys, name ∈ larger.keys) {mirrors : Mirrors}
    (hhonest : Honest objects ∅ mirrors) : Honest larger ∅ mirrors where
  covers _ hobject := absurd hobject (Set.notMem_empty _)
  promised name hname := by
    obtain ⟨object, hobject, rfl⟩ := hhonest.promised name hname
    rw [promised_empty, h.mirrorable_eq] at hobject
    refine ⟨object, ?_, rfl⟩
    rw [promised_empty, hlarger.mirrorable_eq]
    exact hkeys object hobject

end Filled

end Mirrors

/-! ### Fields and mirrors while shapes are under construction -/

/-- A field as it is built, with the objects that are finished and the mirrors that are made. The
objects that it mentions are finished, unless they lead back. A list of objects has the arguments
that are typed by their mirror, or leads back and can only be asked for its size. It has no other
arguments when its objects are finished too late. -/
structure OutputField.Aware (objects : OrderedMap String ObjectType) (inputs : Mirrors)
    (back late : String → Prop) (key : String) (field : OutputField) : Prop where
  name_eq : field.name = key
  type : field.type.Uses (.ofObjects fun object => object ∈ objects.keys ∨ back object)
  listed : ∀ object, field.type.listedObject? = some object →
    (field.args = Arguments.array (some (Naming.inputType object)) ∧
        Naming.inputType object ∈ inputs.keys ∧ ¬ late object) ∨
      (field.args = Arguments.array none ∧ back object)

section Aware

variable {objects objects' : OrderedMap String ObjectType} {inputs inputs' : Mirrors}
  {back back' late late' : String → Prop} {key : String} {field : OutputField}

/-- More objects are finished and more mirrors are made later. -/
theorem OutputField.Aware.grow (h : field.Aware objects inputs back late key)
    (hobjects : ∀ name ∈ objects.keys, name ∈ objects'.keys)
    (hinputs : ∀ name ∈ inputs.keys, name ∈ inputs'.keys) :
    field.Aware objects' inputs' back late key where
  name_eq := h.name_eq
  type := h.type.imp fun name => Or.imp_left (hobjects name)
  listed object hlisted := (h.listed object hlisted).imp_left fun ⟨hargs, hmirror, hearly⟩ =>
    ⟨hargs, hinputs _ hmirror, hearly⟩

theorem OutputField.Aware.imp (h : field.Aware objects inputs back late key)
    (hback : ∀ name, back name → back' name) (hlate : ∀ name, late' name → late name) :
    field.Aware objects inputs back' late' key where
  name_eq := h.name_eq
  type := h.type.imp fun name => Or.imp_right (hback name)
  listed object hlisted := (h.listed object hlisted).imp
    (fun ⟨hargs, hmirror, hearly⟩ => ⟨hargs, hmirror, mt (hlate object) hearly⟩)
    (And.imp_right (hback object))

end Aware

/-- A mirror of an object with an input for every field, in terms of the objects that were known
when it was made. Only what encloses the object was not. -/
def InputType.Reflects (shapes : List KeptShape) (object : String) (source : ObjectType)
    (mirror : InputType) : Prop :=
  ∃ known : OrderedMap String ObjectType,
    mirror.fields = source.fields.map (fun field => field.type.input known) ∧
    ∀ key field, source.fields.get? key = some field → field.type.Uses
      (.ofObjects fun inner => inner ∈ known.keys ∨ KeptShape.Encloses shapes inner object)

namespace Arena

open KeptShape (Encloses Surrounds Once)

/-- The objects and mirrors of an arena in which the shapes `before` are finished, of all `shapes`
of a run. The mirror of an object reflects it, if no other shape has its name. -/
structure Reflecting (shapes before : List KeptShape) (objects : OrderedMap String ObjectType)
    (inputs : Mirrors) : Prop where
  keys : ∀ name, name ∈ objects.keys ↔ name ∈ before.map KeptShape.object
  closed : ∀ shape ∈ before, ∀ name ∈ shape.names, name ∈ before.map KeptShape.object
  nonempty : ∀ name type, objects.get? name = some type → type.fields.isEmpty = false
  fields : ∀ name type, objects.get? name = some type →
    ∀ key field, type.fields.get? key = some field →
      field.Aware objects inputs (Encloses shapes · name) (Surrounds shapes · name) key
  honest : Mirrors.Honest objects ∅ inputs
  mirrors : ∀ object, Once shapes object → ∀ mirror,
    inputs.get? (Naming.inputType object) = some mirror →
      ∃ source, objects.get? object = some source ∧ mirror.Reflects shapes object source

section Reflecting

variable {shapes before more : List KeptShape} {objects objects' : OrderedMap String ObjectType}
  {inputs inputs' : Mirrors}

theorem Reflecting.empty (shapes : List KeptShape) : Reflecting shapes [] ∅ ∅ where
  keys _ := .rfl
  closed _ h := by cases h
  nonempty _ _ h := by cases h
  fields _ _ h := by cases h
  honest := Mirrors.honest_empty ∅
  mirrors _ _ _ h := by cases h

theorem Reflecting.filled (h : Reflecting shapes before objects inputs) :
    Mirrors.Filled objects where
  nonempty := h.nonempty
  plain name type hget field hfield := by
    obtain ⟨key, hfield⟩ := OrderedMap.mem_values_iff.1 hfield
    exact (h.fields name type hget key field hfield).type.imp fun _ _ => trivial

/-- Finished objects stay. -/
theorem Reflecting.keys_subset (h : Reflecting shapes before objects inputs)
    (h' : Reflecting shapes (before ++ more) objects' inputs') :
    ∀ name ∈ objects.keys, name ∈ objects'.keys := by
  intro name hname
  rw [h'.keys, List.map_append]
  exact List.mem_append_left _ ((h.keys name).1 hname)

/-- Deriving arguments makes mirrors that reflect their objects. An object that is listed has a
mirror if it is finished. -/
theorem Reflecting.derive (h : Reflecting shapes before objects inputs) {type : FieldType}
    {back late : String → Prop}
    (htype : type.Uses (.ofObjects fun object => object ∈ objects.keys ∨ back object))
    (hlate : ∀ object, late object → object ∉ objects.keys) :
    let result := (Arguments.derive objects type).run inputs
    Reflecting shapes before objects result.2 ∧ (∀ name ∈ inputs.keys, name ∈ result.2.keys) ∧
      ∀ object, type.listedObject? = some object →
        (result.1 = Arguments.array (some (Naming.inputType object)) ∧
            Naming.inputType object ∈ result.2.keys ∧ ¬ late object) ∨
          (result.1 = Arguments.array none ∧ back object) := by
  obtain ⟨-, hvisits⟩ := Arguments.derive_visits h.honest type
  refine ⟨⟨h.keys, h.closed, h.nonempty, fun name type hget key field hfield => ?_, hvisits.honest,
    fun object honce mirror hget => ?_⟩, hvisits.stay, fun object hlisted => ?_⟩
  · exact (h.fields name type hget key field hfield).grow (fun _ hname => hname) hvisits.stay
  · rcases hvisits.fresh object mirror hget (Set.notMem_empty _) with
      hbefore | ⟨source, hsource, rfl⟩
    · exact h.mirrors object honce mirror hbefore
    · have hfields := h.fields object source hsource
      refine ⟨source, hsource, objects, ?_, fun key field hfield => (hfields key field hfield).type⟩
      rw [Mirrors.promised_empty]
      exact h.filled.mirrorOf_fields hsource fun key field hfield =>
        (hfields key field hfield).name_eq
  · obtain ⟨hfound, -⟩ := Arguments.run_mirror_of_honest h.honest object
    have hmade := (Mirrors.mirror_spec objects objects (Mirrors.speaks_everyName objects) object
      inputs).2.1
    rw [Arguments.run_derive_listed hlisted]
    rw [h.filled.mirrorable_eq, Set.mem_ofPred_eq] at hfound
    rw [FieldType.Uses, FieldType.innermost_of_listedObject? hlisted] at htype
    dsimp only at hfound hmade ⊢
    by_cases hknown : object ∈ objects.keys
    · rw [if_pos hknown] at hfound
      exact .inl ⟨congrArg Arguments.array hfound, hmade _ hfound, fun h => hlate object h hknown⟩
    · rw [if_neg hknown] at hfound
      exact .inr ⟨congrArg Arguments.array hfound, htype.resolve_left hknown⟩

/-- Another shape is finished after those that it encloses. No mirror was made of an object of its
name, unless two shapes have the name. -/
theorem Reflecting.addShape (h : Reflecting shapes before objects inputs) (shape : KeptShape)
    {type : ObjectType} (hsub : (before ++ [shape]).Sublist shapes)
    (hnames : ∀ name ∈ KeptField.objectNamesAll shape.fields, name ∈ before.map KeptShape.object)
    (hnonempty : type.fields.isEmpty = false)
    (hfields : ∀ key field, type.fields.get? key = some field → field.Aware objects inputs
      (Encloses shapes · shape.object) (Surrounds shapes · shape.object) key) :
    Reflecting shapes (before ++ [shape]) (objects.insert shape.object type) inputs := by
  have hkeys : ∀ name, name ∈ (objects.insert shape.object type).keys ↔
      name ∈ (before ++ [shape]).map KeptShape.object := by
    intro name
    rw [OrderedMap.mem_keys_insert, h.keys, List.map_append, List.mem_append, List.map_singleton,
      List.mem_singleton, or_comm]
  have hgrow : ∀ name ∈ objects.keys, name ∈ (objects.insert shape.object type).keys :=
    fun name hname => OrderedMap.mem_keys_insert.2 (.inr hname)
  have haware : ∀ {back late : String → Prop} {key : String} {field : OutputField},
      field.Aware objects inputs back late key →
        field.Aware (objects.insert shape.object type) inputs back late key :=
    fun hfield => hfield.grow hgrow fun _ hname => hname
  have hfilled : Mirrors.Filled (objects.insert shape.object type) := by
    refine h.filled.insert hnonempty fun field hfield => ?_
    obtain ⟨key, hfield⟩ := OrderedMap.mem_values_iff.1 hfield
    exact (hfields key field hfield).type.imp fun _ _ => trivial
  refine ⟨hkeys, fun other hother name hname => ?_, hfilled.nonempty, fun name other hget => ?_,
    h.filled.honest_mono hfilled hgrow h.honest, fun object honce mirror hget => ?_⟩
  · rw [List.map_append]
    rcases List.mem_append.1 hother with hother | hother
    · exact List.mem_append_left _ (h.closed other hother name hname)
    · rw [List.mem_singleton.1 hother] at hname
      rcases List.mem_append.1 hname with hname | hname
      · exact List.mem_append_left _ (hnames name hname)
      · exact List.mem_append_right _ hname
  · rw [OrderedMap.get?_insert] at hget
    split at hget
    · next heq =>
      obtain rfl := Option.some.inj hget
      exact fun key field hfield => heq ▸ haware (hfields key field hfield)
    · exact fun key field hfield => haware (h.fields name other hget key field hfield)
  · obtain ⟨source, hsource, hreflects⟩ := h.mirrors object honce mirror hget
    refine ⟨source, ?_, hreflects⟩
    rw [OrderedMap.get?_insert_of_ne]
    · exact hsource
    · rintro rfl
      exact honce.notMem hsub (List.mem_singleton_self _)
        ((h.keys _).1 (OrderedMap.mem_keys_of_get? hsource))

end Reflecting

/-- Where fields are built: the shapes `before` are finished, those `rest` are to come, all `met`
names are those of finished objects or lead back, and what leads back encloses the shapes to
come. -/
structure Site (shapes before rest : List KeptShape) (met : List String) (back : String → Prop)
    (objects : OrderedMap String ObjectType) (inputs : Mirrors) : Prop where
  reflecting : Reflecting shapes before objects inputs
  sublist : (before ++ rest).Sublist shapes
  known : ∀ name ∈ met, name ∈ objects.keys ∨ back name
  encloses : ∀ outer, back outer → ∀ shape ∈ rest, Encloses shapes outer shape.object

section Site

variable {shapes before rest : List KeptShape} {met : List String} {back : String → Prop}

/-- Whether a shape surrounds one of those to come. -/
def Late (shapes rest : List KeptShape) (outer : String) : Prop :=
  ∃ shape ∈ rest, Surrounds shapes outer shape.object

/-- What surrounds a shape to come is not finished. -/
theorem Site.notMem_of_late {objects : OrderedMap String ObjectType} {inputs : Mirrors}
    (h : Site shapes before rest met back objects inputs) {outer : String}
    (hlate : Late shapes rest outer) : outer ∉ objects.keys := by
  obtain ⟨shape, hshape, hsurrounds⟩ := hlate
  rw [h.reflecting.keys]
  exact hsurrounds.notMem h.sublist h.reflecting.closed (List.mem_map_of_mem hshape)

/-- A field of a type that is met is built with the arguments that it can have. -/
theorem Site.output {arena : Arena}
    (h : Site shapes before rest met back arena.objects arena.inputs) (head : FieldHead)
    {type : FieldType}
    (htype : type.Uses (.ofObjects fun object => object ∈ arena.objects.keys ∨ back object)) :
    let placed := (KeptField.output head type).run arena
    Site shapes before rest met back placed.2.objects placed.2.inputs ∧
      placed.1.Aware placed.2.objects placed.2.inputs back (Late shapes rest) placed.1.name ∧
        ∀ name ∈ arena.inputs.keys, name ∈ placed.2.inputs.keys := by
  let final := if head.nonNull && !type.isUnresolved then type.asNonNull else type
  have hfinal :
      final.Uses (.ofObjects fun object => object ∈ arena.objects.keys ∨ back object) := by
    dsimp only [final]
    split
    · rwa [FieldType.Uses, FieldType.innermost_asNonNull]
    · exact htype
  have hrun := KeptField.run_output head type arena
  dsimp only at hrun ⊢
  rw [hrun, run_argumentsOf]
  by_cases hopen : final.isUnresolved = true
  · have hnone : ∀ object, final.listedObject? ≠ some object := by
      intro object hlisted
      rw [FieldType.isUnresolved, FieldType.innermost_of_listedObject? hlisted] at hopen
      cases hopen
    rw [if_pos hopen]
    exact ⟨h, ⟨rfl, hfinal, fun object hlisted => absurd hlisted (hnone object)⟩,
      fun _ hname => hname⟩
  · obtain ⟨hreflecting, hstay, hlisted⟩ := h.reflecting.derive hfinal fun _ => h.notMem_of_late
    rw [if_neg hopen]
    exact ⟨⟨hreflecting, h.sublist, h.known, h.encloses⟩, ⟨rfl, hfinal, hlisted⟩, hstay⟩

end Site

end Arena

namespace KeptField

open Arena (Site Late Reflecting)
open KeptShape (Encloses Surrounds)

variable {all : List KeptShape} (owner : String)

mutual

theorem site_buildType (path : String) : (kept : KeptField) → {before rest : List KeptShape} →
    {met : List String} → {back : String → Prop} → Orderly met kept → (arena : Arena) →
    Site all before (kept.shapes ++ rest) met back arena.objects arena.inputs →
      let built := (buildType owner path kept).run arena
      Site all (before ++ kept.shapes) rest (met ++ objectNames kept) back built.2.objects
          built.2.inputs ∧
        built.1.Uses (.ofObjects fun object => object ∈ built.2.objects.keys ∨ back object) ∧
          ∀ name ∈ arena.inputs.keys, name ∈ built.2.inputs.keys
  | .value head type enums, before, rest, met, back, horderly, arena, h => by
    rw [Orderly] at horderly
    rw [shapes, List.nil_append] at h
    rw [shapes, objectNames, List.append_nil, List.append_nil, buildType]
    exact ⟨h, horderly.imp h.known, fun _ hname => hname⟩
  | .reference head target cardinality, before, rest, met, back, _, arena, h => by
    rw [shapes, List.nil_append] at h
    rw [shapes, objectNames, List.append_nil, List.append_nil, buildType]
    exact ⟨h, trivial, fun _ hname => hname⟩
  | .shape head inList object embedded fields, before, rest, met, back, horderly, arena, h => by
    let shape : KeptShape := ⟨object, embedded, fields⟩
    let path' := Path.child path head.source
    let built := (buildAll owner path' fields ∅).run arena
    rw [Orderly] at horderly
    rw [shapes, List.append_assoc, List.singleton_append] at h
    have hnames : (shapesAll fields ++ [shape]).map KeptShape.object = shape.names := by
      rw [List.map_append, map_object_shapesAll]
      rfl
    have hsub : (before ++ (shapesAll fields ++ [shape])).Sublist all :=
      (((List.nil_sublist rest).cons_cons shape).append_left _ |>.append_left _).trans h.sublist
    have hshape : shape ∈ all := hsub.subset (by simp)
    -- Inside, the shape itself leads back too.
    have hsite : Site all before (shapesAll fields ++ [shape]) (object :: met)
        (fun outer => back outer ∨ outer = object) arena.objects arena.inputs := by
      refine ⟨h.reflecting, hsub, fun name hname => ?_, fun outer houter other hother => ?_⟩
      · rcases List.mem_cons.1 hname with rfl | hname
        · exact .inr (.inr rfl)
        · exact (h.known name hname).imp_right .inl
      · rcases houter with hback | rfl
        · refine h.encloses outer hback other ?_
          rcases List.mem_append.1 hother with hother | hother
          · exact List.mem_append_left _ hother
          · exact List.mem_append_right _ (List.mem_cons.2 (.inl (List.mem_singleton.1 hother)))
        · exact KeptShape.encloses_of_mem hshape (hnames ▸ List.mem_map_of_mem hother)
    obtain ⟨hbuilt, hfields, hstay⟩ := site_buildAll path' fields horderly.2 ∅ arena hsite
      fun key field hfield => by cases hfield
    have hreflecting : Reflecting all (before ++ (shapesAll fields ++ [shape]))
        (built.2.objects.insert object { name := object, fields := built.1, embedded })
        built.2.inputs := by
      rw [← List.append_assoc]
      refine hbuilt.reflecting.addShape shape hbuilt.sublist (fun name hname => ?_) ?_
        fun key field hfield => ?_
      · rw [List.map_append, map_object_shapesAll]
        exact List.mem_append_right _ hname
      · exact (isEmpty_buildAll owner path' fields ∅ arena).trans horderly.1
      · apply (hfields key field hfield).imp
        · exact fun outer houter => hsite.encloses outer houter shape (by simp)
        · exact fun outer hsurrounds => ⟨shape, List.mem_singleton_self _, hsurrounds⟩
    rw [shapes, objectNames, buildType]
    refine ⟨⟨hreflecting, ?_, fun name hname => ?_, fun outer hback other hother => ?_⟩, ?_, hstay⟩
    · rw [List.append_assoc, List.append_assoc]
      exact h.sublist
    · rcases List.mem_append.1 hname with hname | hname
      · exact (h.known name hname).imp_left (h.reflecting.keys_subset hreflecting name)
      · refine .inl ((hreflecting.keys name).2 ?_)
        rw [List.map_append, hnames]
        exact List.mem_append_right _ hname
    · exact h.encloses outer hback other (by simp [hother])
    · change (FieldType.listIf inList (.object object)).Uses _
      rw [FieldType.Uses, FieldType.innermost_listIf]
      exact .inl (OrderedMap.mem_keys_insert.2 (.inl rfl))

/-- Building fields one after another finishes their shapes, and each field has the arguments that
it can have at its turn. -/
theorem site_buildAll (path : String) : (kept : List KeptField) → {before rest : List KeptShape} →
    {met : List String} → {back : String → Prop} → OrderlyAll met kept →
    (done : OrderedMap String OutputField) → (arena : Arena) →
    Site all before (shapesAll kept ++ rest) met back arena.objects arena.inputs →
    (∀ key field, done.get? key = some field →
      field.Aware arena.objects arena.inputs back (Late all rest) key) →
      let built := (buildAll owner path kept done).run arena
      Site all (before ++ shapesAll kept) rest (met ++ objectNamesAll kept) back built.2.objects
          built.2.inputs ∧
        (∀ key field, built.1.get? key = some field →
          field.Aware built.2.objects built.2.inputs back (Late all rest) key) ∧
          ∀ name ∈ arena.inputs.keys, name ∈ built.2.inputs.keys
  | [], before, rest, met, back, _, done, arena, h, hdone => by
    rw [shapesAll, List.nil_append] at h
    rw [shapesAll, objectNamesAll, List.append_nil, List.append_nil, buildAll]
    exact ⟨h, hdone, fun _ hname => hname⟩
  | first :: others, before, rest, met, back, horderly, done, arena, h, hdone => by
    rw [OrderlyAll] at horderly
    rw [shapesAll, List.append_assoc] at h
    let typed := (buildType owner path first).run arena
    let placed := (output first.head typed.1).run typed.2
    obtain ⟨htyped, htype, hstay⟩ := site_buildType path first horderly.1 arena h
    obtain ⟨hplaced, hfield, hstay'⟩ := htyped.output first.head htype
    have hkeys : ∀ name ∈ arena.objects.keys, name ∈ placed.2.objects.keys :=
      h.reflecting.keys_subset hplaced.reflecting
    have hlate : ∀ outer, Late all rest outer → Late all (shapesAll others ++ rest) outer :=
      fun outer ⟨found, hfound, hsurrounds⟩ => ⟨found, List.mem_append_right _ hfound, hsurrounds⟩
    obtain ⟨hbuilt, hfields, hstay''⟩ := site_buildAll path others horderly.2
      (done.insert placed.1.name placed.1) placed.2 hplaced fun key field hget => by
        rw [OrderedMap.get?_insert] at hget
        split at hget
        · next heq =>
          obtain rfl := Option.some.inj hget
          exact heq ▸ hfield.imp (fun _ hback => hback) hlate
        · exact (hdone key field hget).grow hkeys fun name hname =>
            hstay' name (hstay name hname)
    rw [buildAll, shapesAll, objectNamesAll, ← List.append_assoc, ← List.append_assoc]
    exact ⟨hbuilt, hfields, fun name hname => hstay'' name (hstay' name (hstay name hname))⟩

end

end KeptField

end ModelGraph
