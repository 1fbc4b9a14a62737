import Mathlib.Data.List.Pairwise
import ModelGraph.Proofs.Graph.Alone

/-!
# Models side by side

When no model of a run mentions an object type of another one, and no embedded model of one is met
by another, the arena of the run is put together from the arenas of its models, each on its own.
When the models make different names too, it is resolved model by model.

## Main definitions

- `Arena.join` — arenas side by side
- `Arena.Reads` — looking something up that just one of several arenas has
- `Run.Strangers` — models that mention no object types of each other
- `Run.Separate` — strangers that make different names

## Main statements

- `Run.layOut_eq` — strangers are laid out one by one
- `Run.Separate.settled_eq` — separate models are resolved one by one
-/

namespace ModelGraph

theorem exists_mem_concat {α : Type} {P : α → Prop} {init : List α} {last : α} :
    (∃ x ∈ init ++ [last], P x) ↔ (∃ x ∈ init, P x) ∨ P last := by
  simp [or_and_right, exists_or]

/-- The name of a holder. -/
def Holder.name : Holder → String
  | .root name | .object name => name

namespace Arena

/-- Arenas side by side. -/
def join (arenas : List Arena) : Arena := arenas.foldl (· ++ ·) {}

theorem join_concat (arenas : List Arena) (arena : Arena) :
    join (arenas ++ [arena]) = join arenas ++ arena := by
  rw [join, List.foldl_append]
  rfl

/-- Looking something up finds what just one of two arenas has. -/
structure Reads {α : Type} (find : Arena → Option α) : Prop where
  empty : find {} = none
  first : ∀ others arena, find arena = none → find (others ++ arena) = find others
  second : ∀ others arena, find others = none → find (others ++ arena) = find arena

namespace Reads

variable {α : Type} {find : Arena → Option α} {arenas : List Arena}

theorem of_or (hempty : find {} = none)
    (happend : ∀ others arena, find (others ++ arena) = (find arena).or (find others)) :
    Reads find where
  empty := hempty
  first others arena h := by rw [happend, h, Option.none_or]
  second others arena h := by rw [happend, h, Option.or_none]

theorem join_eq_none (h : Reads find) (hnone : ∀ arena ∈ arenas, find arena = none) :
    find (join arenas) = none := by
  induction arenas using List.reverseRecOn with
  | nil => exact h.empty
  | append_singleton init last ih =>
    have hlast := hnone last (List.mem_append_right _ (List.mem_singleton_self _))
    rw [join_concat, h.first _ _ hlast]
    exact ih fun arena hmem => hnone arena (List.mem_append_left _ hmem)

/-- What just one of several arenas has is found among them. -/
theorem join_eq_some_iff (h : Reads find)
    (hpair : arenas.Pairwise fun arena other => find arena = none ∨ find other = none) {value : α} :
    find (join arenas) = some value ↔ ∃ arena ∈ arenas, find arena = some value := by
  induction arenas using List.reverseRecOn with
  | nil =>
    refine ⟨fun hfind => ?_, fun ⟨_, hmem, _⟩ => absurd hmem List.not_mem_nil⟩
    rw [show find (join []) = none from h.empty] at hfind
    cases hfind
  | append_singleton init last ih =>
    obtain ⟨hinit, -, hapart⟩ := List.pairwise_append.1 hpair
    rw [join_concat, exists_mem_concat]
    cases hlast : find last with
    | none =>
      rw [h.first _ _ hlast, ih hinit]
      exact ⟨.inl, fun hfound => hfound.resolve_right nofun⟩
    | some other =>
      have hnone : ∀ arena ∈ init, find arena = none := fun arena hmem =>
        (hapart arena hmem last (List.mem_singleton_self _)).resolve_right (by simp [hlast])
      rw [h.second _ _ (h.join_eq_none hnone), hlast]
      refine ⟨.inr, fun hfound => hfound.resolve_left ?_⟩
      rintro ⟨arena, hmem, hfound⟩
      rw [hnone arena hmem] at hfound
      cases hfound

end Reads

theorem reads_roots (name : String) : Reads fun arena => arena.roots.get? name :=
  .of_or rfl fun _ _ => OrderedMap.get?_append

theorem reads_inputs (name : String) : Reads fun arena => arena.inputs.get? name :=
  .of_or rfl fun _ _ => OrderedMap.get?_append

theorem reads_connections (name : String) : Reads fun arena => arena.connections.get? name :=
  .of_or rfl fun _ _ => OrderedMap.get?_append

theorem reads_holder? (holder : Holder) : Reads fun arena => arena.holder? holder :=
  .of_or (by cases holder <;> rfl) fun others arena => holder?_append others arena holder

theorem get?_namedTypes_eq_none_iff {arena : Arena} {name : String} :
    arena.namedTypes.get? name = none ↔ arena.connections.get? name = none ∧
      arena.inputs.get? name = none ∧ arena.enums.get? name = none ∧
        arena.objects.get? name = none := by
  simp only [get?_namedTypes, Option.or_eq_none_iff, Option.map_eq_none_iff]

theorem reads_namedTypes (name : String) : Reads fun arena => arena.namedTypes.get? name where
  empty := rfl
  first others arena h := by
    obtain ⟨hconnection, hinput, henum, hobject⟩ := get?_namedTypes_eq_none_iff.1 h
    rw [get?_namedTypes, get?_namedTypes]
    change (Option.map _ ((others.connections ++ arena.connections).get? name)).or
      ((Option.map _ ((others.inputs ++ arena.inputs).get? name)).or
        ((Option.map _ ((others.enums ++ arena.enums).get? name)).or
          (Option.map _ ((others.objects ++ arena.objects).get? name)))) = _
    simp only [OrderedMap.get?_append, hconnection, hinput, henum, hobject, Option.none_or]
  second others arena h := by
    obtain ⟨hconnection, hinput, henum, hobject⟩ := get?_namedTypes_eq_none_iff.1 h
    rw [get?_namedTypes, get?_namedTypes]
    change (Option.map _ ((others.connections ++ arena.connections).get? name)).or
      ((Option.map _ ((others.inputs ++ arena.inputs).get? name)).or
        ((Option.map _ ((others.enums ++ arena.enums).get? name)).or
          (Option.map _ ((others.objects ++ arena.objects).get? name)))) = _
    simp only [OrderedMap.get?_append, hconnection, hinput, henum, hobject, Option.or_none]

section Join

variable {arenas : List Arena}

/-- A name is in a list that arenas have side by side when it is in that of one of them. -/
theorem mem_join_iff (names : Arena → List String) (hempty : names {} = [])
    (happend : ∀ others arena name,
      name ∈ names (others ++ arena) ↔ name ∈ names arena ∨ name ∈ names others) {name : String} :
    name ∈ names (join arenas) ↔ ∃ arena ∈ arenas, name ∈ names arena := by
  induction arenas using List.reverseRecOn with
  | nil => simp [join, hempty]
  | append_singleton init last ih =>
    rw [join_concat, exists_mem_concat, ← ih, happend]
    exact Or.comm

theorem mem_embedded_join {model : String} :
    model ∈ (join arenas).embedded ↔ ∃ arena ∈ arenas, model ∈ arena.embedded :=
  mem_join_iff Arena.embedded rfl fun _ _ _ => List.mem_append

theorem mem_hollow_join {name : String} :
    name ∈ (join arenas).hollow ↔ ∃ arena ∈ arenas, name ∈ arena.hollow :=
  mem_join_iff Arena.hollow rfl fun _ _ _ => List.mem_append

theorem mem_inputs_join {name : String} :
    name ∈ (join arenas).inputs.keys ↔ ∃ arena ∈ arenas, name ∈ arena.inputs.keys :=
  mem_join_iff (fun arena => arena.inputs.keys) rfl fun _ _ _ =>
    OrderedMap.mem_keys_append.trans Or.comm

theorem pending_join : (join arenas).pending = arenas.flatMap Arena.pending := by
  induction arenas using List.reverseRecOn with
  | nil => rfl
  | append_singleton init last ih =>
    rw [join_concat, List.flatMap_append, List.flatMap_singleton, ← ih]
    rfl

end Join

end Arena

namespace Run

variable (run : Run)

/-- Two models that make no type of one name and meet no embedded models of one type. -/
structure Apart (model other : ModelDecl) : Prop where
  names : ∀ name ∈ model.rootName :: run.typeNames model,
    name ∉ other.rootName :: run.typeNames other
  embedded : ∀ name ∈ model.embeddedTypes run.settings, name ∉ other.embeddedTypes run.settings

instance : Std.Symm run.Apart where
  symm _ _ h := ⟨fun name hname hother => h.names name hother hname,
    fun name hname hother => h.embedded name hother hname⟩

theorem Apart.ne {run : Run} {model other : ModelDecl} (h : run.Apart model other) :
    other ≠ model := by
  rintro rfl
  exact h.names _ (List.mem_cons_self ..) (List.mem_cons_self ..)

/-- Two models whose fields mention no object types of each other, and that meet no embedded models
of one type. -/
structure Strangers (model other : ModelDecl) : Prop where
  words : ∀ name, (run.vocabulary model).objects name →
    name ∉ (other.kept run.settings).objectNames
  words' : ∀ name, (run.vocabulary other).objects name →
    name ∉ (model.kept run.settings).objectNames
  embedded : ∀ name ∈ model.embeddedTypes run.settings, name ∉ other.embeddedTypes run.settings

/-- Models that mention no object types of each other, make no type of one name, and meet no
embedded models of one type. -/
structure Separate (models : List ModelDecl) : Prop where
  strangers : models.Pairwise run.Strangers
  apart : models.Pairwise run.Apart

theorem Separate.sublist {run : Run} {models part : List ModelDecl} (h : run.Separate models)
    (hpart : part.Sublist models) : run.Separate part :=
  ⟨h.strangers.sublist hpart, h.apart.sublist hpart⟩

/-! ### The arena of a run -/

theorem layOut_concat (models : List ModelDecl) (model : ModelDecl) :
    run.layOut (models ++ [model]) =
      ((Arena.addModel run.settings run.identity model).run (run.layOut models)).2 := by
  change (StateT.run (forM (models ++ [model]) (Arena.addModel run.settings run.identity)) _).2 = _
  rw [List.forM_append]
  rfl

/-- Every root knows the name of its model, which is the last one with its output name. -/
theorem rootModels_layOut (models : List ModelDecl) : (run.layOut models).rootModels =
    .ofList (models.map fun model => (model.rootName, model.name)) := by
  induction models using List.reverseRecOn with
  | nil => rfl
  | append_singleton init model ih =>
    rw [layOut_concat, Arena.run_addModel_kept, List.map_append, List.map_singleton,
      OrderedMap.ofList_append_singleton, ← ih]
    rfl

/-- What is remembered of embedded models after a model is laid out on its own. -/
theorem seen_layOut_singleton (model : ModelDecl) :
    (run.layOut [model]).seen = ((model.keep run.settings).run {}).2 := by
  rw [layOut_singleton, Arena.run_addModel, Arena.run_declared]
  rfl

theorem owner_of_mem_slots {kept : KeptModel} {slot : ReferenceSlot} (h : slot ∈ kept.slots) :
    slot.owner = kept.owner := by
  obtain ⟨reference, -, rfl⟩ := List.mem_map.1 h
  rfl

/-- The embedded models of a model are not met by other models. -/
theorem unmet_layOut {run : Run} {part : List ModelDecl} {model : ModelDecl}
    (hnew : ∀ other ∈ part, run.Strangers other model) :
    (Arena.join (part.map fun other => run.layOut [other])).seen.Unmet
      ((model.keep run.settings).run {}).2.embedded := by
  intro embedded hembedded
  have hmem := List.mem_map_of_mem (f := Naming.embeddedType) hembedded
  refine ⟨fun hmet => ?_, fun hhollow => ?_⟩
  · obtain ⟨arena, harena, hmet⟩ := Arena.mem_embedded_join.1 hmet
    obtain ⟨other, hother, rfl⟩ := List.mem_map.1 harena
    have hseen := congrArg Seen.embedded (seen_layOut_singleton run other)
    rw [show (run.layOut [other]).embedded = _ from hseen] at hmet
    exact (hnew other hother).embedded _ (List.mem_map_of_mem hmet) hmem
  · obtain ⟨arena, harena, hhollow⟩ := Arena.mem_hollow_join.1 hhollow
    obtain ⟨other, hother, rfl⟩ := List.mem_map.1 harena
    have hseen := congrArg Seen.hollow (seen_layOut_singleton run other)
    rw [show (run.layOut [other]).hollow = _ from hseen] at hhollow
    rcases (keeps_kept run other).hollowed _ hhollow with hbefore | ⟨met, hmet, heq⟩
    · exact absurd hbefore List.not_mem_nil
    · exact (hnew other hother).embedded _ (List.mem_map.2 ⟨met, hmet, heq⟩) hmem

/-- The names that the fields of models may mention. -/
def vocabularyOf (models : List ModelDecl) : Vocabulary where
  objects name := ∃ model ∈ models, (run.vocabulary model).objects name
  enums name := ∃ model ∈ models, (run.vocabulary model).enums name
  connections name := ∃ model ∈ models, (run.vocabulary model).connections name

theorem within_vocabularyOf {models : List ModelDecl} {model : ModelDecl} (h : model ∈ models) :
    (run.vocabulary model).Within (run.vocabularyOf models) :=
  ⟨fun _ hname => ⟨model, h, hname⟩, fun _ hname => ⟨model, h, hname⟩,
    fun _ hname => ⟨model, h, hname⟩⟩

/-- The types of other models do not get into the way of a model. -/
theorem apart_layOut {run : Run} {part : List ModelDecl} {model : ModelDecl}
    (hnew : ∀ other ∈ part, run.Strangers other model) :
    (Arena.join (part.map fun other => run.layOut [other])).Apart (run.vocabulary model) := by
  refine ⟨fun name hname => ?_, fun name hname => ?_⟩
  · rw [← OrderedMap.get?_eq_none_iff]
    refine (Arena.reads_holder? (.object name)).join_eq_none fun arena harena => ?_
    obtain ⟨other, hother, rfl⟩ := List.mem_map.1 harena
    refine OrderedMap.get?_eq_none_iff.2 fun hmem => ?_
    exact (hnew other hother).words' name hname ((mem_objects_layOut_singleton run other).1 hmem)
  · rw [← OrderedMap.get?_eq_none_iff]
    refine (Arena.reads_inputs (Naming.inputType name)).join_eq_none fun arena harena => ?_
    obtain ⟨other, hother, rfl⟩ := List.mem_map.1 harena
    refine OrderedMap.get?_eq_none_iff.2 fun hmem => ?_
    obtain ⟨object, hobject, heq⟩ := (tidy_layOut run other).1.mirrored _ hmem
    rw [Naming.inputType_inj heq] at hname
    exact (hnew other hother).words' object hname
      ((mem_objects_layOut_singleton run other).1 hobject)

/-- Strangers are laid out one by one. -/
theorem layOut_eq {run : Run} {models : List ModelDecl} (h : models.Pairwise run.Strangers) :
    run.layOut models = Arena.join (models.map fun model => run.layOut [model]) := by
  induction models using List.reverseRecOn with
  | nil => rfl
  | append_singleton init model ih =>
    obtain ⟨hinit, -, hlast⟩ := List.pairwise_append.1 h
    have hnew : ∀ other ∈ init, run.Strangers other model := fun other hother =>
      hlast other hother model (List.mem_singleton_self _)
    rw [layOut_concat, List.map_append, List.map_singleton, Arena.join_concat, ih hinit]
    exact Arena.addModel_append run.identity (usesAll_vocabulary run model) (apart_layOut hnew)
      (unmet_layOut hnew)

theorem name_of_holder? {run : Run} {model : ModelDecl} {holder : Holder} {type : ObjectType}
    (hholder : (run.layOut [model]).holder? holder = some type) :
    holder.name ∈ model.rootName :: run.typeNames model := by
  cases holder with
  | root name =>
    have hmem := OrderedMap.mem_keys_of_get? hholder
    rw [(holds_layOut_singleton run model).roots] at hmem
    exact List.mem_singleton.1 hmem ▸ List.mem_cons_self ..
  | object name =>
    have hmem := (mem_objects_layOut_singleton run model).1 (OrderedMap.mem_keys_of_get? hholder)
    exact List.mem_cons_of_mem _ (mem_typeNames.2 (.inl hmem))

/-- Models that make different names have no holder in common. -/
theorem Apart.holder?_eq_none {run : Run} {model other : ModelDecl} (h : run.Apart model other)
    {holder : Holder} (hname : holder.name ∈ model.rootName :: run.typeNames model) :
    (run.layOut [other]).holder? holder = none :=
  Option.eq_none_iff_forall_ne_some.2 fun _ htype => h.names _ hname (name_of_holder? htype)

section Separate

variable {run : Run} {models : List ModelDecl} (h : run.Separate models)

include h

/-- What belongs to one name is found in the arenas of models side by side. -/
theorem Separate.find_join {α : Type} {find : Arena → Option α} (hreads : Arena.Reads find)
    (arena : ModelDecl → Arena) {name : String}
    (hname : ∀ model value, find (arena model) = some value →
      name ∈ model.rootName :: run.typeNames model) {value : α} :
    find (Arena.join (models.map arena)) = some value ↔
      ∃ model ∈ models, find (arena model) = some value := by
  have hpair : (models.map arena).Pairwise fun arena other =>
      find arena = none ∨ find other = none := by
    refine List.pairwise_map.2 (h.apart.imp fun {model other} hapart => ?_)
    cases hfind : find (arena model) with
    | none => exact .inl rfl
    | some value =>
      cases hfind' : find (arena other) with
      | none => exact .inr rfl
      | some value' =>
        exact absurd (hname other value' hfind') (hapart.names name (hname model value hfind))
  rw [hreads.join_eq_some_iff hpair]
  simp only [List.mem_map, exists_exists_and_eq_and]

/-- The fields of models side by side use the vocabularies of the models. -/
theorem Separate.speaks_join :
    (Arena.join (models.map fun model => run.layOut [model])).Speaks (run.vocabularyOf models) := by
  intro ⟨holder, name⟩ field hfield
  rw [Arena.fieldAt?] at hfield
  obtain ⟨type, htype, hget⟩ := Option.bind_eq_some_iff.1 hfield
  obtain ⟨model, hmodel, htype⟩ := (h.find_join (Arena.reads_holder? holder)
    (fun model => run.layOut [model]) fun _ _ => name_of_holder?).1 htype
  have huses := (tidy_layOut run model).2 ⟨holder, name⟩ field (by
    rw [Arena.fieldAt?, htype]
    exact hget)
  refine (huses.within (run.within_vocabularyOf hmodel)).mono fun input hinput => ?_
  obtain ⟨mirror, hmirror⟩ := OrderedMap.mem_keys_iff.1 hinput
  have hnames : ∀ other mirror, (run.layOut [other]).inputs.get? input = some mirror →
      input ∈ other.rootName :: run.typeNames other := fun other _ hfound =>
    List.mem_cons_of_mem _
      (mem_typeNames.2 (.inr (.inr (.inr (OrderedMap.mem_keys_of_get? hfound)))))
  exact OrderedMap.mem_keys_of_get? ((h.find_join (Arena.reads_inputs input)
    (fun model => run.layOut [model]) hnames).2 ⟨model, hmodel, hmirror⟩)

/-- A holder that no model has is not found in the arena of the run. -/
theorem Separate.holder?_layOut_eq_none {holder : Holder}
    (hnone : ∀ model ∈ models, (run.layOut [model]).holder? holder = none) :
    (run.layOut models).holder? holder = none := by
  rw [layOut_eq h.strangers]
  refine (Arena.reads_holder? holder).join_eq_none fun arena harena => ?_
  obtain ⟨model, hmodel, rfl⟩ := List.mem_map.1 harena
  exact hnone model hmodel

/-- The slots of a model stay in it beside other models. -/
theorem Separate.staysApart {model : ModelDecl}
    (hstrangers : ∀ other ∈ models, run.Strangers other model)
    (hapart : ∀ other ∈ models, run.Apart other model) :
    Arena.StaysApart (run.vocabulary model) (run.layOut [model]) (run.layOut models) := by
  refine ⟨(tidy_layOut run model).2, fun name hname => ?_, fun slot hslot => ?_⟩
  · refine h.holder?_layOut_eq_none fun other hother => OrderedMap.get?_eq_none_iff.2 fun hmem => ?_
    exact (hstrangers other hother).words' name hname
      ((mem_objects_layOut_singleton run other).1 hmem)
  · rw [pending_layOut_singleton] at hslot
    refine ⟨uses_resolvedType run model hslot, h.holder?_layOut_eq_none fun other hother => ?_⟩
    exact (symm (hapart other hother)).holder?_eq_none
      (List.mem_cons.2 (.inl (owner_of_mem_slots hslot)))

/-- The slots of other models stay in them beside a model. -/
theorem Separate.staysApart' {model : ModelDecl}
    (hstrangers : ∀ other ∈ models, run.Strangers other model)
    (hapart : ∀ other ∈ models, run.Apart other model) :
    Arena.StaysApart (run.vocabularyOf models) (run.layOut models) (run.layOut [model]) := by
  rw [layOut_eq h.strangers]
  refine ⟨h.speaks_join, fun name hname => ?_, fun slot hslot => ?_⟩
  · obtain ⟨other, hother, hname⟩ := hname
    refine OrderedMap.get?_eq_none_iff.2 fun hmem => ?_
    exact (hstrangers other hother).words name hname
      ((mem_objects_layOut_singleton run model).1 hmem)
  · rw [Arena.pending_join, List.flatMap_map] at hslot
    obtain ⟨other, hother, hslot⟩ := List.mem_flatMap.1 hslot
    rw [pending_layOut_singleton] at hslot
    exact ⟨(uses_resolvedType run other hslot).mono (run.within_vocabularyOf hother),
      (hapart other hother).holder?_eq_none (List.mem_cons.2 (.inl (owner_of_mem_slots hslot)))⟩

omit h in
/-- The connection of a slot is not that of another model. -/
theorem connectionName_notMem {model : ModelDecl} (hapart : ∀ other ∈ models, run.Apart other model)
    {slot : ReferenceSlot} (hslot : slot ∈ (model.kept run.settings).slots)
    (hplural : slot.cardinality = .plural) :
    Naming.connectionType slot.owner slot.path ∉
      (Arena.join (models.map run.alone)).connections.keys := by
  have hname : Naming.connectionType slot.owner slot.path ∈ run.typeNames model :=
    mem_typeNames.2 (.inr (.inr (.inl (List.mem_map.2
      ⟨slot, List.mem_filter.2 ⟨hslot, decide_eq_true hplural⟩, rfl⟩))))
  rw [← OrderedMap.get?_eq_none_iff]
  refine (Arena.reads_connections _).join_eq_none fun arena harena => ?_
  obtain ⟨other, hother, rfl⟩ := List.mem_map.1 harena
  refine OrderedMap.get?_eq_none_iff.2 fun hmem => ?_
  exact (hapart other hother).names _
    (List.mem_cons_of_mem _ (mem_typeNames.2 (.inr (.inr (.inl (mem_connectionNames_alone hmem))))))
    (List.mem_cons_of_mem _ hname)

omit h in
/-- Separate models are resolved one by one. -/
theorem Separate.settled_eq (h : run.Separate models) :
    (run.layOut models).settled = Arena.join (models.map run.alone) := by
  induction models using List.reverseRecOn with
  | nil => rfl
  | append_singleton init model ih =>
    have hinit := h.sublist (List.sublist_append_left init [model])
    have hstrangers : ∀ other ∈ init, run.Strangers other model := fun other hother =>
      (List.pairwise_append.1 h.strangers).2.2 other hother model (List.mem_singleton_self _)
    have hapart : ∀ other ∈ init, run.Apart other model := fun other hother =>
      (List.pairwise_append.1 h.apart).2.2 other hother model (List.mem_singleton_self _)
    have hsplit : run.layOut (init ++ [model]) = run.layOut init ++ run.layOut [model] := by
      rw [layOut_eq h.strangers, List.map_append, List.map_singleton, Arena.join_concat,
        ← layOut_eq hinit.strangers]
    rw [hsplit, List.map_append, List.map_singleton, Arena.join_concat, ← ih hinit]
    refine Arena.settled_append (hinit.staysApart hstrangers hapart)
      (hinit.staysApart' hstrangers hapart) (holds_layOut_singleton run model).connections
      fun slot hslot hplural => ?_
    rw [pending_layOut_singleton] at hslot
    rw [ih hinit]
    exact connectionName_notMem hapart hslot hplural

/-! ### What models side by side have -/

theorem Separate.get?_roots_join {name : String} {root : ObjectType} :
    (Arena.join (models.map run.alone)).roots.get? name = some root ↔
      ∃ model ∈ models, (run.alone model).roots.get? name = some root :=
  h.find_join (Arena.reads_roots name) run.alone fun _ _ hroot =>
    List.mem_cons.2 (.inl (eq_rootName hroot))

theorem Separate.get?_namedTypes_join {name : String} {type : NamedType} :
    (Arena.join (models.map run.alone)).namedTypes.get? name = some type ↔
      ∃ model ∈ models, (run.alone model).namedTypes.get? name = some type :=
  h.find_join (Arena.reads_namedTypes name) run.alone fun _ _ htype =>
    List.mem_cons_of_mem _ (name_of_get? htype).2

/-- A slot is left among models side by side when it is left in one of them. -/
theorem Separate.isOpen_join_iff {place : FieldPlace} :
    (Arena.join (models.map run.alone)).IsOpen place ↔
      ∃ model ∈ models, (run.alone model).IsOpen place := by
  have hholder : ∀ type, (Arena.join (models.map run.alone)).holder? place.holder = some type ↔
      ∃ model ∈ models, (run.alone model).holder? place.holder = some type := fun type =>
    h.find_join (Arena.reads_holder? place.holder) run.alone fun model _ hfound => by
      obtain ⟨old, hold, -⟩ := Arena.exists_holder?_settleAll hfound
      exact @name_of_holder? run model _ old hold
  simp only [Arena.IsOpen, Arena.fieldAt?, Option.bind_eq_some_iff, hholder]
  constructor
  · rintro ⟨field, ⟨type, ⟨model, hmodel, htype⟩, hfield⟩, hopen⟩
    exact ⟨model, hmodel, field, ⟨type, htype, hfield⟩, hopen⟩
  · rintro ⟨model, hmodel, field, ⟨type, htype, hfield⟩, hopen⟩
    exact ⟨field, ⟨type, ⟨model, hmodel, htype⟩, hfield⟩, hopen⟩

theorem Separate.mem_pending_layOut {slot : ReferenceSlot} : slot ∈ (run.layOut models).pending ↔
    ∃ model ∈ models, slot ∈ (model.kept run.settings).slots := by
  rw [layOut_eq h.strangers, Arena.pending_join, List.flatMap_map, List.mem_flatMap]
  simp only [pending_layOut_singleton]

end Separate

end Run

end ModelGraph
