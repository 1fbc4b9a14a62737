import ModelGraph.Proofs.Graph.LaidOut
import ModelGraph.Proofs.Graph.Mention

/-!
# Laying out beside other types

Two arenas can be put side by side. Laying out a model beside types of other models leaves those
alone and adds what the model adds on its own, as long as no name that the model mentions is taken
and no embedded model of it was met before.

## Main definitions

- `++` on arenas — the tables of two arenas side by side
- `Mirrors.Apart` — objects that are found alike beside other types, with mirrors of their own
- `Arena.Apart` — an arena without the names of a vocabulary

## Main statements

- `Mirrors.mirror_append` — mirrors are built beside others as they are alone
- `KeptField.buildAll_append` — kept fields are built beside other types as they are alone
- `Arena.addModel_append` — a model is laid out beside other types as it is alone
-/

namespace ModelGraph

namespace Mirrors

/-- Object types of a vocabulary that are found alike among more of them, and whose mirrors are not
among the given ones. -/
structure Apart (words : Vocabulary) (objects large : OrderedMap String ObjectType)
    (others : Mirrors) : Prop where
  objects : ∀ name, words.objects name → large.get? name = objects.get? name
  mirrors : ∀ name, words.objects name → Naming.inputType name ∉ others.keys

section Append

variable {words : Vocabulary} {objects large : OrderedMap String ObjectType} {others : Mirrors}

theorem Apart.contains (h : Apart words objects large others) {name : String}
    (hname : words.objects name) (mirrors : Mirrors) :
    (others ++ mirrors).contains (Naming.inputType name) =
      mirrors.contains (Naming.inputType name) := by
  rw [OrderedMap.contains, OrderedMap.get?_append_of_notMem (h.mirrors name hname),
    OrderedMap.contains]

mutual

/-- A mirror is built beside others as it is alone. -/
theorem mirror_append (h : Apart words objects large others)
    (available wide : OrderedMap String ObjectType) (hspeaks : Speaks words available)
    (hwide : ∀ name, words.objects name → wide.get? name = available.get? name)
    (object : String) (hobject : words.objects object) (mirrors : Mirrors) :
    (mirror large wide object).run (others ++ mirrors) =
      (((mirror objects available object).run mirrors).1,
        others ++ ((mirror objects available object).run mirrors).2) := by
  rw [run_mirror, run_mirror, h.contains hobject, hwide object hobject]
  by_cases hcontains : mirrors.contains (Naming.inputType object)
  · rw [if_pos hcontains, if_pos hcontains]
  · rw [if_neg hcontains, if_neg hcontains]
    cases hfound : available.get? object with
    | none => rfl
    | some source =>
      have hnew : Naming.inputType object ∉ mirrors.keys :=
        fun hmem => hcontains (OrderedMap.contains_iff.2 hmem)
      have herase : ∀ name, words.objects name →
          (wide.erase object).get? name = (available.erase object).get? name := by
        intro name hname
        rw [OrderedMap.get?_erase, OrderedMap.get?_erase, hwide name hname]
      let announced := mirrors.insert (Naming.inputType object) ⟨Naming.inputType object, ∅⟩
      obtain ⟨-, -, hempty⟩ := mirrorFields_spec objects (available.erase object)
        (hspeaks.erase object) source.fields.values (hspeaks object source hfound) ∅ announced
      have hinner := mirrorFields_append h (available.erase object) (wide.erase object)
        (hspeaks.erase object) herase source.fields.values (hspeaks object source hfound) ∅
        announced
      dsimp only
      rw [← OrderedMap.append_insert, hinner]
      dsimp only
      split
      · next hnone =>
        have hboth : Naming.inputType object ∉ (others ++ mirrors).keys := by
          rw [OrderedMap.mem_keys_append, not_or]
          exact ⟨h.mirrors object hobject, hnew⟩
        rw [(hempty hnone).2, OrderedMap.append_insert, OrderedMap.erase_insert_of_notMem hboth,
          OrderedMap.erase_insert_of_notMem hnew]
      · rw [OrderedMap.append_insert]
termination_by (available.size, 0, 0)
decreasing_by exact Prod.Lex.left _ _ (OrderedMap.size_erase_lt hfound)

theorem mirrorFields_append (h : Apart words objects large others)
    (available wide : OrderedMap String ObjectType) (hspeaks : Speaks words available)
    (hwide : ∀ name, words.objects name → wide.get? name = available.get? name)
    (fields : List OutputField) (hfields : ∀ field ∈ fields, field.type.Uses words)
    (mirrored : OrderedMap String ArgType) (mirrors : Mirrors) :
    (mirrorFields large wide fields mirrored).run (others ++ mirrors) =
      (((mirrorFields objects available fields mirrored).run mirrors).1,
        others ++ ((mirrorFields objects available fields mirrored).run mirrors).2) :=
  match fields with
  | [] => by
    rw [mirrorFields, mirrorFields]
    rfl
  | field :: rest => by
    have hfirst := inputType_append h available wide hspeaks hwide field.type
      (hfields field (List.mem_cons_self ..)) mirrors
    have hrest := mirrorFields_append h available wide hspeaks hwide rest fun other hother =>
      hfields other (List.mem_cons_of_mem _ hother)
    rw [run_mirrorFields_cons, run_mirrorFields_cons, hfirst]
    cases htype : ((inputType objects available field.type).run mirrors).1 with
    | none =>
      simp only [htype]
      exact hrest _ _
    | some type =>
      simp only [htype]
      exact hrest _ _
termination_by (available.size, 2, fields.length)

theorem inputType_append (h : Apart words objects large others)
    (available wide : OrderedMap String ObjectType) (hspeaks : Speaks words available)
    (hwide : ∀ name, words.objects name → wide.get? name = available.get? name)
    (type : FieldType) (htype : type.Uses words) (mirrors : Mirrors) :
    (inputType large wide type).run (others ++ mirrors) =
      (((inputType objects available type).run mirrors).1,
        others ++ ((inputType objects available type).run mirrors).2) :=
  match type with
  | .nonNull inner => by
    rw [inputType, inputType]
    exact inputType_append h available wide hspeaks hwide inner htype mirrors
  | .list element => by
    have helement := inputType_append h available wide hspeaks hwide element htype mirrors
    rw [run_inputType_list, run_inputType_list, helement]
  | .object name => by
    have hmirror := mirror_append h available wide hspeaks hwide name htype mirrors
    have hcontains : large.contains name = objects.contains name := by
      rw [OrderedMap.contains, h.objects name htype, OrderedMap.contains]
    rw [run_inputType_object, run_inputType_object, hmirror, hcontains]
    cases hfound : ((mirror objects available name).run mirrors).1 <;> simp only [hfound]
  | .scalar _ | .enum _ | .unresolved _ | .connection _ => by
    rw [inputType, inputType]
    rfl
termination_by (available.size, 1, sizeOf type)

end

/-- The arguments of a field are derived beside other mirrors as they are alone. -/
theorem derive_append (h : Apart words objects large others) (hspeaks : Speaks words objects)
    (type : FieldType) (htype : type.Uses words) (mirrors : Mirrors) :
    (Arguments.derive large type).run (others ++ mirrors) =
      (((Arguments.derive objects type).run mirrors).1,
        others ++ ((Arguments.derive objects type).run mirrors).2) := by
  have hnullable := htype.nullable
  rw [Arguments.derive, Arguments.derive]
  cases hcore : type.nullable with
  | scalar _ | enum _ | object _ | connection _ | nonNull _ | unresolved _ => rfl
  | list element =>
    rw [hcore] at hnullable
    have helement : element.nullable.Uses words := FieldType.Uses.nullable hnullable
    dsimp only
    cases hinner : element.nullable with
    | scalar _ | enum _ | list _ | connection _ | nonNull _ | unresolved _ => rfl
    | object name =>
      rw [hinner] at helement
      dsimp only
      rw [run_bind, run_bind, mirror_append h objects large hspeaks h.objects name helement]
      rfl

end Append

end Mirrors

/-! ### Arenas side by side -/

/-- The tables of two arenas side by side. -/
instance : Append Arena where
  append others arena :=
    { roots := others.roots ++ arena.roots
      rootModels := others.rootModels ++ arena.rootModels
      objects := others.objects ++ arena.objects
      embedded := arena.embedded ++ others.embedded
      hollow := arena.hollow ++ others.hollow
      enums := others.enums ++ arena.enums
      inputs := others.inputs ++ arena.inputs
      connections := others.connections ++ arena.connections
      pending := others.pending ++ arena.pending }

namespace Arena

/-- An arena without object types or mirrors for the object names of a vocabulary. -/
structure Apart (words : Vocabulary) (others : Arena) : Prop where
  objects : ∀ name, words.objects name → name ∉ others.objects.keys
  mirrors : ∀ name, words.objects name → Naming.inputType name ∉ others.inputs.keys

/-- A computation that leaves the types beside it alone. -/
def RunsBeside (others : Arena) {α : Type} (computation : StateM Arena α) (arena : Arena) : Prop :=
  computation.run (others ++ arena) =
    ((computation.run arena).1, others ++ (computation.run arena).2)

theorem RunsBeside.bind {others : Arena} {α β : Type} {first : StateM Arena α}
    {next : α → StateM Arena β} {arena : Arena} (hfirst : RunsBeside others first arena)
    (hnext : RunsBeside others (next (first.run arena).1) (first.run arena).2) :
    RunsBeside others (first >>= next) arena := by
  rw [RunsBeside, run_bind, run_bind, hfirst]
  exact hnext

section Append

variable {words : Vocabulary} {others arena : Arena}

theorem Apart.derive (h : others.Apart words) :
    Mirrors.Apart words arena.objects (others ++ arena).objects others.inputs where
  objects name hname := OrderedMap.get?_append_of_notMem (h.objects name hname)
  mirrors := h.mirrors

theorem Apart.argumentsOf (h : others.Apart words) (htidy : arena.Tidy words) {type : FieldType}
    (htype : type.Uses words) : RunsBeside others (Arena.argumentsOf type) arena := by
  rw [RunsBeside, run_argumentsOf, run_argumentsOf]
  split
  · rfl
  · have hderive := Mirrors.derive_append h.derive htidy.speaks type htype arena.inputs
    change (((Arguments.derive (others ++ arena).objects type).run
        (others.inputs ++ arena.inputs)).1,
      { (others ++ arena) with inputs := ((Arguments.derive (others ++ arena).objects type).run
        (others.inputs ++ arena.inputs)).2 }) = _
    rw [hderive]
    rfl

end Append

end Arena

namespace KeptField

open Arena (RunsBeside)

section Append

variable {words : Vocabulary} {others : Arena} (owner : String)

theorem output_append (h : others.Apart words) {arena : Arena} (htidy : arena.Tidy words)
    (head : FieldHead) {type : FieldType} (htype : type.Uses words) :
    RunsBeside others (output head type) arena := by
  have hwrapped : (if head.nonNull && !type.isUnresolved then type.asNonNull else type).Uses
      words := by
    split
    · rwa [FieldType.Uses, FieldType.innermost_asNonNull]
    · exact htype
  exact (h.argumentsOf htidy hwrapped).bind rfl

mutual

theorem buildType_append (h : others.Apart words) (path : String) : (kept : KeptField) →
    Uses words kept → (arena : Arena) → arena.Tidy words →
      RunsBeside others (buildType owner path kept) arena
  | .value head type enums, _, arena, _ => by
    rw [buildType]
    refine RunsBeside.bind ?_ rfl
    rw [RunsBeside, run_addEnums, run_addEnums]
    exact congrArg (fun enums => ((), { (others ++ arena) with enums }))
      OrderedMap.append_insertMany.symm
  | .reference head target cardinality, _, arena, _ => by
    rw [buildType, RunsBeside, Arena.run_addSlot, Arena.run_addSlot]
    exact congrArg (fun pending => (FieldType.unresolved _, { (others ++ arena) with pending }))
      (List.append_assoc ..)
  | .shape head inList object embedded fields, hwords, arena, htidy => by
    rw [Uses] at hwords
    rw [buildType]
    refine (buildAll_append h (Path.child path head.source) fields hwords.2 ∅ arena htidy
      fun _ hfield => absurd hfield List.not_mem_nil).bind (RunsBeside.bind ?_ rfl)
    rw [RunsBeside, run_addShape, run_addShape]
    exact congrArg (fun objects => ((), { (others ++ _) with objects }))
      OrderedMap.append_insert.symm

/-- Kept fields are built beside other types as they are alone. -/
theorem buildAll_append (h : others.Apart words) (path : String) : (kept : List KeptField) →
    UsesAll words kept → (done : OrderedMap String OutputField) → (arena : Arena) →
    arena.Tidy words → (∀ field ∈ done.values, field.Uses words arena.inputs) →
      RunsBeside others (buildAll owner path kept done) arena
  | [], _, done, arena, _, _ => by
    rw [buildAll]
    rfl
  | kept :: rest, hwords, done, arena, htidy, hdone => by
    rw [UsesAll] at hwords
    obtain ⟨htyped, htype, hstay⟩ := tidy_buildType owner path kept hwords.1 arena htidy
    obtain ⟨hplaced, hfield, hstay'⟩ := tidy_output htyped kept.head htype
    rw [buildAll]
    refine (buildType_append h path kept hwords.1 arena htidy).bind
      ((output_append h htyped kept.head htype).bind ?_)
    refine buildAll_append h path rest hwords.2 _ _ hplaced fun field hmem => ?_
    rcases OrderedMap.mem_values_insert hmem with rfl | hmem
    · exact hfield
    · exact (hdone field hmem).mono fun name hname => hstay' name (hstay name hname)

end

end Append

end KeptField

/-! ### Embedded models beside others -/

/-- Whether nothing is remembered of embedded models. -/
def Seen.Unmet (seen : Seen) (models : List String) : Prop :=
  ∀ model ∈ models, model ∉ seen.embedded ∧ Naming.embeddedType model ∉ seen.hollow

namespace Arena

/-- An arena that remembers other embedded models too. -/
def remember (arena : Arena) (seen : Seen) : Arena :=
  { arena with
    embedded := arena.embedded ++ seen.embedded
    hollow := arena.hollow ++ seen.hollow }

/-- A computation that does not depend on what is remembered of embedded models that it does not
meet. -/
structure MeetsApart (seen : Seen) {α : Type} (computation : StateM Arena α) : Prop where
  stay : ∀ arena : Arena, ∀ model ∈ arena.embedded, model ∈ (computation.run arena).2.embedded
  remember : ∀ arena : Arena, seen.Unmet (computation.run arena).2.embedded →
    computation.run (arena.remember seen) =
      ((computation.run arena).1, (computation.run arena).2.remember seen)

theorem MeetsApart.of_ignoresSeen {seen : Seen} {α : Type} {computation : StateM Arena α}
    (h : IgnoresSeen computation) : MeetsApart seen computation := by
  have hsame : ∀ arena : Arena, (computation.run arena).2.seen = arena.seen := by
    intro arena
    have hself := h arena arena.seen
    rw [withSeen_seen] at hself
    exact congrArg (fun result => result.2.seen) hself
  have hembedded : ∀ arena : Arena, (computation.run arena).2.embedded = arena.embedded :=
    fun arena => congrArg Seen.embedded (hsame arena)
  have hhollow : ∀ arena : Arena, (computation.run arena).2.hollow = arena.hollow :=
    fun arena => congrArg Seen.hollow (hsame arena)
  refine ⟨fun arena model hmodel => (hembedded arena).symm ▸ hmodel, fun arena _ => ?_⟩
  refine (h arena ⟨arena.embedded ++ seen.embedded, arena.hollow ++ seen.hollow⟩).trans ?_
  rw [Arena.remember, hembedded, hhollow]
  rfl

theorem inherited_meetsApart (seen : Seen) : Inherited (MeetsApart seen) where
  pure value := .of_ignoresSeen (.pure value)
  bind := by
    intro α β first next hfirst hnext
    refine ⟨fun arena model hmodel => (hnext _).stay _ model (hfirst.stay arena model hmodel),
      fun arena hunmet => ?_⟩
    have hmiddle : seen.Unmet (first.run arena).2.embedded :=
      fun model hmodel => hunmet model ((hnext _).stay _ model hmodel)
    rw [run_bind, run_bind, hfirst.remember arena hmiddle]
    exact (hnext _).remember _ hunmet
  scalarType parent field kind values := by
    refine .of_ignoresSeen fun arena seen => ?_
    rw [run_scalarType, run_scalarType]
    split <;> rfl
  addObject name embedded fields := by
    refine ⟨fun arena model hmodel => ?_, fun arena _ => ?_⟩
    · rw [run_addObject]
      split
      · cases embedded <;> exact hmodel
      · exact hmodel
    · rw [run_addObject, run_addObject]
      split
      · cases embedded <;> rfl
      · rfl
  addSlot slot := .of_ignoresSeen fun _ _ => rfl
  argumentsOf type := .of_ignoresSeen (ignoresSeen_argumentsOf type)
  meetEmbedded model := by
    refine ⟨fun arena other hother => ?_, fun arena hunmet => ?_⟩
    · rw [run_meetEmbedded]
      split
      · exact hother
      · exact List.mem_cons_of_mem _ hother
    -- The model is met now, so it is not among those that the other arena had met.
    · have hmodel : model ∈ ((meetEmbedded model).run arena).2.embedded := by
        rw [run_meetEmbedded]
        split
        · next hmem => exact hmem
        · exact List.mem_cons_self ..
      obtain ⟨hembedded, hhollow⟩ := hunmet model hmodel
      rw [run_meetEmbedded, run_meetEmbedded]
      simp only [Arena.remember, List.mem_append, hembedded, hhollow, or_false]
      split <;> rfl

/-! ### Models beside others -/

theorem append_empty (arena : Arena) : arena ++ ({} : Arena) = arena := by
  change { arena with pending := arena.pending ++ [] } = arena
  rw [List.append_nil]

section Model

variable {settings : SynthSettings} {model : ModelDecl} {words : Vocabulary} {others : Arena}

/-- The fields of a model are laid out beside other types as they are alone. -/
theorem declared_append (hwords : KeptField.UsesAll words ((model.keep settings).run {}).1.fields)
    (hapart : others.Apart words)
    (hunmet : others.seen.Unmet ((model.keep settings).run {}).2.embedded) :
    (declared settings model).run others =
      (((declared settings model).run {}).1, others ++ ((declared settings model).run {}).2) := by
  let kept := (model.keep settings).run {}
  let built := (KeptField.buildAll kept.1.owner "" kept.1.fields ∅).run {}
  have hbuild : (KeptField.buildAll kept.1.owner "" kept.1.fields ∅).run others =
      (built.1, others ++ built.2) := by
    have hbeside := KeptField.buildAll_append kept.1.owner hapart "" kept.1.fields hwords ∅ {}
      (tidy_empty words) fun _ hfield => absurd hfield List.not_mem_nil
    rwa [RunsBeside, append_empty] at hbeside
  have halone : (declared settings model).run (others.withSeen {}) =
      (built.1, (others ++ built.2).withSeen kept.2) := by
    rw [run_declared]
    dsimp only
    rw [KeptField.ignoresSeen_buildAll, seen_withSeen, hbuild]
    rfl
  have hmeets : MeetsApart others.seen (declared settings model) :=
    (inherited_meetsApart others.seen).fields settings _ _ "" model.ownFields ∅
  refine (hmeets.remember (others.withSeen {}) ?_).trans ?_
  · rw [halone]
    exact hunmet
  · change (((declared settings model).run (others.withSeen {})).1,
      ((declared settings model).run (others.withSeen {})).2.remember others.seen) = _
    rw [halone, run_declared]
    rfl

/-- A model is laid out beside other types as it is alone. -/
theorem addModel_append (identity : Identity)
    (hwords : KeptField.UsesAll words ((model.keep settings).run {}).1.fields)
    (hapart : others.Apart words)
    (hunmet : others.seen.Unmet ((model.keep settings).run {}).2.embedded) :
    ((addModel settings identity model).run others).2 =
      others ++ ((addModel settings identity model).run {}).2 := by
  rw [run_addModel, run_addModel, declared_append hwords hapart hunmet]
  dsimp only
  rw [← OrderedMap.append_singleton, ← OrderedMap.append_singleton]
  rfl

end Model

end Arena

end ModelGraph
