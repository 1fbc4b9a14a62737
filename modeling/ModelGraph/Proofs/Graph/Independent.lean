import ModelGraph.Proofs.Graph.Modular

/-!
# Independent models are modular

Models are unmixed when none of them makes a type that another one makes or mentions, and no two of
them share an embedded model. Such models are laid out and resolved one by one, so each of them gets
the types that it has on its own, whichever of the others are there. When each of them makes every name
once and is resolved on its own, they are modular.

## Main definitions

- `Run.Unmixed` — models that make nothing which another one makes or mentions
- `Run.Independent` — unmixed models that make every type name once

## Main statements

- `Run.Unmixed.get?_eq` — what an unmixed model reaches is what it reaches on its own
- `Run.Independent.listed_of_shows` — a model of which everything passes has its targets listed
- `Run.Independent.modular` — independent models are modular
-/

namespace ModelGraph

namespace Run

variable (run : Run)

/-- Models that share no embedded models and no names, and of which none makes a type that another one
mentions. -/
structure Unmixed (models : List ModelDecl) : Prop where
  apart : models.Pairwise run.Apart
  scope : ∀ model ∈ models, ∀ other ∈ models, model ≠ other →
    ∀ name, run.Scope model name → name ∉ run.typeNames other

/-- Unmixed models that make every type name once and have no slot left. The output name of a target
that is not among the models is not that of a model, nor that of an object type below the root. -/
structure Independent (models : List ModelDecl) : Prop extends Unmixed run models where
  unambiguous : ∀ model ∈ models, run.Unambiguous model
  targets : ∀ model ∈ models, ∀ slot ∈ (model.kept run.settings).slots,
    slot.target ∈ models.map ModelDecl.name ∨
      Naming.sanitize slot.target ∉
        models.map ModelDecl.rootName ++ (model.kept run.settings).objectNames
  resolved : ∀ model ∈ models, (run.alone model).checkResolved = .ok ()

/-! ### Unmixed models -/

section Unmixed

variable {run : Run} {models : List ModelDecl} (h : run.Unmixed models)

include h

theorem Unmixed.separate : run.Separate models where
  strangers := by
    have hwords : ∀ model ∈ models, ∀ other ∈ models, model ≠ other → ∀ name,
        (run.vocabulary model).objects name → name ∉ (other.kept run.settings).objectNames := by
      intro model hmodel other hother hne name hname hmem
      refine h.scope model hmodel other hother hne name ?_ (mem_typeNames.2 (.inl hmem))
      exact hname.imp (fun hown => mem_typeNames.2 (.inl hown)) .inl
    exact h.apart.imp_of_mem fun hmodel hother hapart =>
      ⟨hwords _ hmodel _ hother hapart.ne.symm, hwords _ hother _ hmodel hapart.ne, hapart.embedded⟩
  apart := h.apart

/-- A type that a part of the models has under a name which a model reaches is that of the model. -/
theorem Unmixed.get?_of_part {part : List ModelDecl} (hpart : part.Sublist models)
    {model : ModelDecl} (hmodel : model ∈ models) {name : String} (hreach : run.ReachedBy model name)
    {type : NamedType} (hget : (run.layOut part).settled.namedTypes.get? name = some type) :
    (run.alone model).namedTypes.get? name = some type := by
  have hseparate := h.separate.sublist hpart
  rw [hseparate.settled_eq, hseparate.get?_namedTypes_join] at hget
  obtain ⟨other, hother, hget⟩ := hget
  obtain ⟨root, hroot, hreach⟩ := hreach
  by_cases hne : model = other
  · exact hne ▸ hget
  · exact absurd (name_of_get? hget).2 (h.scope model hmodel other (hpart.subset hother) hne name
      (scope_of_reaches hroot hreach))

/-- A model of a part has the root that it has on its own. -/
theorem Unmixed.get?_roots_eq {part : List ModelDecl} (hpart : part.Sublist models)
    {model : ModelDecl} (hmodel : model ∈ part) :
    (run.layOut part).settled.roots.get? model.rootName =
      (run.alone model).roots.get? model.rootName := by
  have hseparate := h.separate.sublist hpart
  obtain ⟨root, hroot, -⟩ := run.exists_root model
  rw [hroot, hseparate.settled_eq]
  exact hseparate.get?_roots_join.2 ⟨model, hmodel, hroot⟩

/-- What a model reaches stands in a part for what it does on its own. -/
theorem Unmixed.get?_eq {part : List ModelDecl} (hpart : part.Sublist models) {model : ModelDecl}
    (hmodel : model ∈ part) {name : String} (hreach : run.ReachedBy model name) :
    (run.layOut part).settled.namedTypes.get? name = (run.alone model).namedTypes.get? name := by
  refine Option.ext fun type =>
    ⟨h.get?_of_part hpart (hpart.subset hmodel) hreach, fun hget => ?_⟩
  have hseparate := h.separate.sublist hpart
  rw [hseparate.settled_eq]
  exact hseparate.get?_namedTypes_join.2 ⟨model, hmodel, hget⟩

end Unmixed

section Independent

variable {run : Run} {models : List ModelDecl} (h : run.Independent models)

include h

/-- The output name of a target is not the name of an object type below the root. -/
theorem Independent.target_notMem {model : ModelDecl} (hmodel : model ∈ models)
    {slot : ReferenceSlot} (hslot : slot ∈ (model.kept run.settings).slots) :
    Naming.sanitize slot.target ∉ (model.kept run.settings).objectNames := by
  intro hmem
  have hown : Naming.sanitize slot.target ∈ run.typeNames model := mem_typeNames.2 (.inl hmem)
  rcases h.targets model hmodel slot hslot with hlisted | hunlisted
  · obtain ⟨target, htarget, hname⟩ := List.mem_map.1 hlisted
    rw [← hname] at hown
    by_cases hne : target = model
    · rw [hne] at hown
      exact (List.nodup_cons.1 (h.unambiguous model hmodel).names).1 hown
    · exact (h.apart.forall htarget hmodel hne).names _ (List.mem_cons_self ..)
        (List.mem_cons_of_mem _ hown)
  · exact hunlisted (List.mem_append_right _ hmem)

/-! ### What passes -/

/-- A model of which everything passes has its targets listed. -/
theorem Independent.listed_of_shows {model : ModelDecl} (hmodel : model ∈ models)
    (hshows : run.Shows models model) : run.Listed models model := by
  intro slot hslot
  have hunambiguous := h.unambiguous model hmodel
  have hclosed := Arena.checkResolved_eq_ok_iff.1 (h.resolved model hmodel)
  -- No model has the output name of a target that is not listed.
  have htarget : IsRootName models (Naming.sanitize slot.target) →
      slot.target ∈ models.map ModelDecl.name := by
    intro hroot
    exact (h.targets model hmodel slot hslot).resolve_right fun hunlisted =>
      hunlisted (List.mem_append_left _ hroot)
  obtain ⟨root, hroot, -⟩ := run.exists_root model
  obtain ⟨type, htype, field, hfield, hresolved⟩ :=
    hunambiguous.exists_slot_field hroot hclosed hslot
  have hbelow : run.Below model type := by
    rcases htype with rfl | ⟨name, hreach, hget⟩
    · exact .inl hroot
    · exact .inr ⟨name, ⟨root, hroot, hreach⟩, hget⟩
  have hknown := FieldType.known_innermost_iff.2 (hshows type hbelow field hfield).type
  rw [hresolved, innermost_resolvedType] at hknown
  cases hcardinality : slot.cardinality with
  | single =>
    rw [hcardinality] at hknown
    refine htarget (Or.resolve_right hknown ?_)
    rintro ⟨object, hobject⟩
    have hmem := OrderedMap.mem_keys_of_get? (Arena.get?_objects_of_namedTypes hobject)
    rw [(frame_alone run model).2.1] at hmem
    exact h.target_notMem hmodel hslot hmem
  | plural =>
    rw [hcardinality] at hknown
    obtain ⟨connection, hconnection, hnode⟩ := hknown
    have hown := get?_connection (hunambiguous.connection hslot hcardinality)
    rw [hown, Option.some.injEq, NamedType.connection.injEq] at hconnection
    rw [← hconnection] at hnode
    exact htarget hnode

/-- Everything of a model passes when its targets are listed. -/
theorem Independent.passes {model : ModelDecl} (hmodel : model ∈ models)
    (hlisted : run.Listed models model) {holder : Holder} {type : ObjectType}
    (hholder : (run.alone model).holder? holder = some type) {field : OutputField}
    (hfield : field ∈ type.fields.values) :
    field.Passes (IsRootName models) (run.alone model).namedTypes.get? := by
  have hunambiguous := h.unambiguous model hmodel
  obtain ⟨-, hobjects, henums, hinputs⟩ := frame_alone run model
  have henum : ∀ name ∈ (model.kept run.settings).enumNames,
      ∃ type, (run.alone model).namedTypes.get? name = some (.enum type) := by
    intro name hname
    obtain ⟨type, hget⟩ := OrderedMap.mem_keys_iff.1 ((henums name).2 hname)
    exact ⟨type, hunambiguous.get?_enum hget⟩
  -- References lead to roots, and the targets of a listed model are among them.
  have hroot : ∀ slot ∈ (model.kept run.settings).slots,
      IsRootName models (Naming.sanitize slot.target) := by
    intro slot hslot
    obtain ⟨other, hother, heq⟩ := List.mem_map.1 (hlisted slot hslot)
    exact List.mem_map.2 ⟨other, hother, heq ▸ rfl⟩
  obtain ⟨key, hget⟩ := OrderedMap.mem_values_iff.1 hfield
  have hplace : (run.alone model).fieldAt? ⟨holder, key⟩ = some field := by
    rw [Arena.fieldAt?, hholder]
    exact hget
  have huses := speaks_alone run model ⟨holder, key⟩ field hplace
  refine ⟨FieldType.known_innermost_iff.1 ?_, fun arg harg => ?_⟩
  · have htype := huses.type
    have hopen : field.type.isUnresolved ≠ true := fun hunresolved =>
      Arena.checkResolved_eq_ok_iff.1 (h.resolved model hmodel) _ ⟨field, hplace, hunresolved⟩
    rw [FieldType.Uses] at htype
    rcases field.type.innermost_cases with
      ⟨kind, hcore⟩ | ⟨name, hcore⟩ | ⟨name, hcore⟩ | ⟨name, hcore⟩ | hunresolved
    · rw [hcore]
      trivial
    · rw [hcore] at htype ⊢
      exact henum name htype
    · rw [hcore] at htype ⊢
      rcases htype with hown | ⟨slot, hslot, rfl⟩
      · obtain ⟨object, hobject⟩ := OrderedMap.mem_keys_iff.1 ((hobjects name).2 hown)
        exact .inr ⟨object, hunambiguous.get?_object.2 hobject⟩
      · exact .inl (hroot slot hslot)
    · rw [hcore] at htype ⊢
      obtain ⟨slot, hslot, rfl⟩ := List.mem_map.1 htype
      obtain ⟨hslot, hplural⟩ := List.mem_filter.1 hslot
      exact ⟨_, get?_connection (hunambiguous.connection hslot (of_decide_eq_true hplural)),
        hroot slot hslot⟩
    · exact absurd hunresolved hopen
  · rcases huses.args arg harg with hbuiltIn | hname | hinput
    · exact .inl hbuiltIn
    · exact .inr (.inl (henum _ hname))
    · obtain ⟨input, hget⟩ := OrderedMap.mem_keys_iff.1 hinput
      exact .inr (.inr ⟨input, hunambiguous.get?_input hget⟩)

/-! ### Parts -/

/-- When everything of independent models passes, every part of them can be built. -/
theorem Independent.completes (hlisted : ∀ model ∈ models, run.Listed models model)
    {part : List ModelDecl} (hpart : part.Sublist models) : run.Completes models part := by
  have hseparate := h.separate.sublist hpart
  refine ⟨⟨fun slot hslot => ?_, ?_⟩, fun type htype field hfield => ?_⟩
  · obtain ⟨model, hmodel, hslot⟩ := hseparate.mem_pending_layOut.1 hslot
    exact hlisted model (hpart.subset hmodel) slot hslot
  · rw [hseparate.settled_eq, Arena.checkResolved_eq_ok_iff]
    intro place hopen
    obtain ⟨model, hmodel, hopen⟩ := hseparate.isOpen_join_iff.1 hopen
    exact Arena.checkResolved_eq_ok_iff.1 (h.resolved model (hpart.subset hmodel)) place hopen
  · rw [hseparate.settled_eq] at htype ⊢
    obtain ⟨name, hget⟩ := OrderedMap.mem_values_iff.1 htype
    obtain ⟨model, hmodel, hget⟩ := hseparate.get?_namedTypes_join.1 hget
    have hlarge := hpart.subset hmodel
    refine OutputField.Passes.imp (h.passes hlarge (hlisted model hlarge)
      (show (run.alone model).holder? (.object name) = some type from
        Arena.get?_objects_of_namedTypes hget) hfield) (fun _ hname => hname) ?_
    exact fun name _ type hfound => hseparate.get?_namedTypes_join.2 ⟨model, hmodel, hfound⟩

/-- Independent models are modular. -/
theorem Independent.modular : run.Modular models where
  fits _ hpart :=
    { root := fun _ hmodel => h.get?_roots_eq hpart hmodel
      own := fun _ hmodel _ hreach => h.get?_eq hpart hmodel hreach
      other := fun _ hmodel _ hreach _ hget => h.get?_of_part hpart hmodel hreach hget }
  completes hshows _ hpart :=
    h.completes (fun model hmodel => h.listed_of_shows hmodel (hshows model hmodel)) hpart

end Independent

end Run

end ModelGraph
