import ModelGraph.Proofs.Graph.Fresh
import ModelGraph.Proofs.Graph.WellNamed

/-!
# What laying out models leaves behind

The models of a run are laid out one after another. What is remembered of embedded models is carried
along, so an embedded model belongs to the model that is met first with it.

## Main definitions

- `ModelDecl.WellNamed` — a model whose visible fields are well-named
- `KeptModel` — the fields that a model keeps
- `Run.kept` — the kept fields of the models of a run
- `Arena.LaidOut` — an arena with exactly the types and slots of kept models

## Main statements

- `Run.layOut_induct` — what each model passes on holds of all of them
- `Run.laidOut` — the first phase leaves exactly the types and slots of its kept models
-/

namespace ModelGraph

/-- The fields that a model keeps. -/
structure KeptModel where
  /-- The name of the root type. -/
  owner : String
  fields : List KeptField

namespace KeptModel

variable (model : KeptModel)

/-- The references of a model, at any depth. -/
def references : List Reference := KeptField.referencesAll model.fields

/-- The slots that a model leaves behind. -/
def slots : List ReferenceSlot := model.references.map (Reference.slot model.owner "")

/-- The nested and embedded types of a model. -/
def objectNames : List String := KeptField.objectNamesAll model.fields

/-- The enums of a model. -/
def enumNames : List String := KeptField.enumNamesAll model.fields

/-- Whether siblings have different output names, at every depth. -/
def SiblingsApart : Prop :=
  (model.fields.map KeptField.name).Nodup ∧ KeptField.DistinctAll model.fields

end KeptModel

namespace ModelDecl

variable (settings : SynthSettings)

/-- The declared fields of a model that its output fields are made of. -/
def ownFields (model : ModelDecl) : List FieldDecl :=
  model.fields.filter fun decl => !Arena.isIdentityDecl decl

/-- The fields that a model keeps. -/
def keep (model : ModelDecl) : StateM Seen KeptModel := do
  let fields ← KeptField.keepAll settings (Naming.sanitize model.name) model.ownFields
  pure ⟨Naming.sanitize model.name, fields⟩

/-- A model whose visible fields are well-named and have different output names. -/
def WellNamed (model : ModelDecl) : Prop :=
  (FieldDecl.visibleNames settings model.ownFields).Nodup ∧
    FieldDecl.WellNamedAll settings model.ownFields

instance : DecidablePred (WellNamed settings) := fun model =>
  inferInstanceAs (Decidable (_ ∧ FieldDecl.WellNamedAll settings model.ownFields))

variable {settings}

/-- The kept siblings of a well-named model have different output names. -/
theorem WellNamed.siblingsApart {model : ModelDecl} (h : model.WellNamed settings) (seen : Seen) :
    ((model.keep settings).run seen).1.SiblingsApart :=
  ⟨KeptField.nodup_names_keepAll h.1 _ seen, KeptField.distinctAll_iff.2 fun field hfield =>
    (KeptField.proper_keepAll _ model.ownFields h.2 seen field hfield).distinct⟩

end ModelDecl

/-- The kept fields of the models of a run. -/
def Run.kept (run : Run) (models : List ModelDecl) : List KeptModel :=
  ((models.mapM (ModelDecl.keep run.settings)).run {}).1

namespace Arena

open KeptField

/-- An arena with exactly the roots, object types, enums and slots of kept models, whose fields all
stand. -/
structure LaidOut (models : List KeptModel) (arena : Arena) : Prop where
  roots : arena.roots.keys = models.map KeptModel.owner
  objects : arena.objects.keys = models.flatMap KeptModel.objectNames
  enums : ∀ name, name ∈ arena.enums.keys ↔ name ∈ models.flatMap KeptModel.enumNames
  connections : arena.connections = ∅
  pending : arena.pending = models.flatMap KeptModel.slots
  stands : ∀ model ∈ models, ∃ root, arena.roots.get? model.owner = some root ∧
    StandsAll model.owner "" arena.objects model.fields root.fields

theorem LaidOut.empty : LaidOut [] {} where
  roots := rfl
  objects := rfl
  enums _ := .rfl
  connections := rfl
  pending := rfl
  stands _ h := absurd h List.not_mem_nil

section AddModel

variable {settings : SynthSettings} {identity : Identity}

/-- The declared fields of a model are laid out by keeping and building them. -/
theorem run_declared (settings : SynthSettings) (model : ModelDecl) (arena : Arena) :
    (declared settings model).run arena =
      let kept := (model.keep settings).run arena.seen
      let built := (buildAll kept.1.owner "" kept.1.fields ∅).run arena
      (built.1, built.2.withSeen kept.2) :=
  splits_fields settings (Naming.sanitize model.name) (Naming.sanitize model.name) ""
    model.ownFields ∅ arena

/-- Laying out a model builds what it keeps, and remembers what keeping does. -/
theorem run_addModel_kept (settings : SynthSettings) (identity : Identity) (model : ModelDecl)
    (arena : Arena) :
    ((addModel settings identity model).run arena).2 =
      let kept := (model.keep settings).run arena.seen
      let built := (buildAll kept.1.owner "" kept.1.fields ∅).run arena
      { built.2.withSeen kept.2 with
        roots := arena.roots.insert kept.1.owner (rootOf settings identity model built.1)
        rootModels := arena.rootModels.insert kept.1.owner model.name
        connections := arena.connections } := by
  rw [run_addModel, run_declared]
  rfl

/-- Laying out another model adds its types and slots. -/
theorem LaidOut.addModel {models : List KeptModel} {arena : Arena} (h : LaidOut models arena)
    (model : ModelDecl) (hsiblings : ((model.keep settings).run arena.seen).1.SiblingsApart)
    (howner : Naming.sanitize model.name ∉ models.map KeptModel.owner)
    (hobjects : (models.flatMap KeptModel.objectNames ++
      ((model.keep settings).run arena.seen).1.objectNames).Nodup) :
    LaidOut (models ++ [((model.keep settings).run arena.seen).1])
      ((addModel settings identity model).run arena).2 := by
  let kept := (model.keep settings).run arena.seen
  let built := (buildAll kept.1.owner "" kept.1.fields ∅).run arena
  obtain ⟨hbuilds, -, -, hstands⟩ := builds_all kept.1.owner "" kept.1.fields ∅ arena
    (by rw [h.objects]; exact hobjects) hsiblings.2
    (by rw [OrderedMap.keys_empty, List.nil_append]; exact hsiblings.1)
  rw [run_addModel_kept]
  refine ⟨?_, ?_, ?_, h.connections, ?_, ?_⟩
  · change (arena.roots.insert kept.1.owner _).keys = _
    rw [OrderedMap.keys_insert_of_notMem (by rw [h.roots]; exact howner), h.roots, List.map_append]
    rfl
  · change built.2.objects.keys = _
    rw [hbuilds.objects, h.objects, List.flatMap_append, List.flatMap_singleton]
    rfl
  · intro name
    rw [List.flatMap_append, List.flatMap_singleton, List.mem_append, ← h.enums]
    exact hbuilds.enums name
  · change built.2.pending = _
    rw [hbuilds.pending, h.pending, List.flatMap_append, List.flatMap_singleton]
    rfl
  · intro other hother
    rcases List.mem_append.1 hother with hother | hother
    · obtain ⟨root, hroot, hfields⟩ := h.stands other hother
      refine ⟨root, ?_, hfields.grow hbuilds.grows ..⟩
      change (arena.roots.insert kept.1.owner _).get? other.owner = _
      rw [OrderedMap.get?_insert_of_ne]
      · exact hroot
      · intro heq
        exact howner (List.mem_map.2 ⟨other, hother, heq.symm⟩)
    · obtain rfl := List.mem_singleton.1 hother
      refine ⟨_, OrderedMap.get?_insert_self, hstands.more fun name field hfield => ?_⟩
      exact get?_rootOf.2 (.inl hfield)

end AddModel

/-- What each model adds to the kept ones before holds of all of them. -/
theorem forM_addModel_induct {settings : SynthSettings} {identity : Identity}
    {P : List KeptModel → Arena → Prop} {models : List ModelDecl}
    (hstep : ∀ before arena, ∀ model ∈ models, P before arena →
      P (before ++ [((model.keep settings).run arena.seen).1])
        ((addModel settings identity model).run arena).2)
    {before : List KeptModel} {arena : Arena} (h : P before arena) :
    P (before ++ ((models.mapM (ModelDecl.keep settings)).run arena.seen).1)
      ((models.forM (addModel settings identity)).run arena).2 := by
  induction models generalizing before arena with
  | nil =>
    change P (before ++ []) arena
    rwa [List.append_nil]
  | cons model rest ih =>
    have hseen : ((addModel settings identity model).run arena).2.seen =
        ((model.keep settings).run arena.seen).2 := by
      rw [run_addModel_kept]
      rfl
    have hnext := ih (fun before arena other hother =>
      hstep before arena other (List.mem_cons_of_mem _ hother))
      (hstep before arena model (List.mem_cons_self ..) h)
    rw [hseen, List.append_assoc] at hnext
    rw [List.mapM_cons]
    exact hnext

end Arena

namespace Run

/-- A property of kept models and of the arena with their types holds of a run when each model
passes it on. -/
theorem layOut_induct (run : Run) (models : List ModelDecl)
    {P : List KeptModel → Arena → Prop} (hempty : P [] {})
    (hstep : ∀ before arena, ∀ model ∈ models, P before arena →
      P (before ++ [((model.keep run.settings).run arena.seen).1])
        ((Arena.addModel run.settings run.identity model).run arena).2) :
    P (run.kept models) (run.layOut models) :=
  Arena.forM_addModel_induct hstep hempty

/-- The kept fields of a model are those of a declared one, in view of what was met before. -/
theorem exists_of_mem_mapM {settings : SynthSettings} {models : List ModelDecl} {seen : Seen}
    {kept : KeptModel}
    (h : kept ∈ ((models.mapM (ModelDecl.keep settings)).run seen).1) :
    ∃ model ∈ models, ∃ seen, kept = ((model.keep settings).run seen).1 := by
  induction models generalizing seen with
  | nil => exact absurd h List.not_mem_nil
  | cons model rest ih =>
    rw [List.mapM_cons] at h
    rcases List.mem_cons.1 h with rfl | h
    · exact ⟨model, List.mem_cons_self .., seen, rfl⟩
    · obtain ⟨other, hother, hkept⟩ := ih h
      exact ⟨other, List.mem_cons_of_mem _ hother, hkept⟩

/-- The names on the way to the references of well-named models read back. -/
theorem isSegment_of_kept {run : Run} {models : List ModelDecl}
    (hnamed : ∀ model ∈ models, model.WellNamed run.settings) {kept : KeptModel}
    (hkept : kept ∈ run.kept models) {reference : Reference}
    (href : reference ∈ kept.references) : ∀ name ∈ reference.trail, Path.IsSegment name := by
  obtain ⟨model, hmodel, seen, rfl⟩ := exists_of_mem_mapM hkept
  obtain ⟨field, hfield, hmem⟩ := KeptField.mem_referencesAll.1 href
  exact (KeptField.proper_keepAll _ model.ownFields (hnamed model hmodel).2 seen field
    hfield).segments reference hmem

theorem owners_kept (run : Run) (models : List ModelDecl) :
    (run.kept models).map KeptModel.owner =
      models.map fun model => Naming.sanitize model.name := by
  have howners : ∀ seen : Seen,
      ((models.mapM (ModelDecl.keep run.settings)).run seen).1.map KeptModel.owner =
        models.map fun model => Naming.sanitize model.name := by
    induction models with
    | nil => exact fun _ => rfl
    | cons model rest ih =>
      intro seen
      rw [List.mapM_cons]
      exact congrArg (Naming.sanitize model.name :: ·) (ih _)
  exact howners {}

/-- The first phase of a run leaves exactly the types and slots of its kept models when siblings have
different names, and no root and no object type is made twice. -/
theorem laidOut_of_siblingsApart (run : Run) (models : List ModelDecl)
    (hsiblings : ∀ kept ∈ run.kept models, kept.SiblingsApart)
    (howners : (models.map fun model => Naming.sanitize model.name).Nodup)
    (hobjects : ((run.kept models).flatMap KeptModel.objectNames).Nodup) :
    (run.layOut models).LaidOut (run.kept models) := by
  rw [← owners_kept run] at howners
  refine run.layOut_induct models (P := fun kept arena => (∀ model ∈ kept, model.SiblingsApart) →
    (kept.map KeptModel.owner).Nodup → (kept.flatMap KeptModel.objectNames).Nodup →
      arena.LaidOut kept) (fun _ _ _ => .empty) ?_ hsiblings howners hobjects
  intro before arena model _ h hsiblings howners hobjects
  rw [List.map_append, List.map_singleton] at howners
  rw [List.flatMap_append, List.flatMap_singleton] at hobjects
  obtain ⟨hbefore, -, hnew⟩ := List.nodup_append.1 howners
  refine Arena.LaidOut.addModel (h (fun other hother => hsiblings other (List.mem_append_left _ hother))
    hbefore (List.nodup_append.1 hobjects).1) model
      (hsiblings _ (List.mem_append_right _ (List.mem_singleton_self _)))
      (fun hmem => hnew _ hmem _ (List.mem_singleton_self _) rfl) hobjects

/-- The first phase of a run leaves exactly the types and slots of its kept models. -/
theorem laidOut (run : Run) (models : List ModelDecl)
    (hnamed : ∀ model ∈ models, model.WellNamed run.settings)
    (howners : (models.map fun model => Naming.sanitize model.name).Nodup)
    (hobjects : ((run.kept models).flatMap KeptModel.objectNames).Nodup) :
    (run.layOut models).LaidOut (run.kept models) := by
  refine run.laidOut_of_siblingsApart models (fun kept hkept => ?_) howners hobjects
  obtain ⟨model, hmodel, seen, rfl⟩ := exists_of_mem_mapM hkept
  exact (hnamed model hmodel).siblingsApart seen

end Run

end ModelGraph
