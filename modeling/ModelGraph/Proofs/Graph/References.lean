import ModelGraph.Proofs.Graph.Frozen
import ModelGraph.Proofs.Graph.LaidOut
import ModelGraph.Proofs.Graph.Settle

/-!
# References find their targets

A slot is left behind in the first phase for every visible reference, wherever it is declared, and
the second phase finds the field again by the dotted path of the slot. So every reference ends with
the type of its target: the object for a single one, and a connection for a plural one.

## Main definitions

- `FieldDecl.visibleReferences` — the visible references of declared fields
- `Run.references` — the visible references of the models of a run
- `Run.generatedNames` — the names of all types that a run makes

## Main statements

- `Run.references_eq` — the slots of a run are those of its visible references
- `Run.synthesize_resolves` — every visible reference ends with the type of its target
-/

namespace ModelGraph

/-! ### Visible references -/

namespace FieldDecl

variable (settings : SynthSettings)

/-- Announces an embedded model; tells whether it was not met before. -/
def announce (model : String) : StateM (List String) Bool := do
  let met ← get
  if met.contains model then pure false
  else
    set (model :: met)
    pure true

theorem run_announce (model : String) (met : List String) :
    (announce model).run met = if model ∈ met then (false, met) else (true, model :: met) := by
  simp only [announce, List.contains_iff_mem]
  change (if model ∈ met then _ else _ : StateM (List String) Bool).run met = _
  split <;> rfl

mutual

/-- The visible references of declared fields, at any depth. The state lists the embedded models met
so far: the fields of such a model belong to the place where it was met first. -/
def visibleReferences : List FieldDecl → StateM (List String) (List Reference)
  | [] => pure []
  | decl :: rest => do
    let first ← ownReferences decl
    let others ← visibleReferences rest
    pure (first ++ others)

/-- The visible references of a field and below it. -/
def ownReferences : FieldDecl → StateM (List String) (List Reference)
  | ⟨name, content, nonNull, isHidden, _, _⟩ =>
    if Arena.isExcluded settings name isHidden then pure []
    else shapeReferences name nonNull content

/-- The visible references of a field of the given name and shape. -/
def shapeReferences (name : String) (nonNull : Bool) :
    FieldShape FieldDecl → StateM (List String) (List Reference)
  | .scalar _ _ => pure []
  | .list element => elementReferences name element
  | .nested decls => do
    let inner ← visibleReferences decls
    pure (inner.map (Reference.below name))
  | .embedded model decls => do
    if ← announce model then
      let inner ← visibleReferences decls
      pure (inner.map (Reference.below name))
    else pure []
  | .reference target cardinality => pure [⟨[name], target, cardinality, nonNull⟩]

/-- The visible references of a field of the given name that lists elements. -/
def elementReferences (name : String) :
    ElementShape FieldDecl → StateM (List String) (List Reference)
  | .scalar _ _ => pure []
  | .nested decls => do
    let inner ← visibleReferences decls
    pure (inner.map (Reference.below name))
  | .embedded model decls => do
    if ← announce model then
      let inner ← visibleReferences decls
      pure (inner.map (Reference.below name))
    else pure []

end

end FieldDecl

/-- The visible references of a model, each with the name of the root type. -/
def ModelDecl.references (settings : SynthSettings) (model : ModelDecl) :
    StateM (List String) (List (String × Reference)) := do
  let references ← FieldDecl.visibleReferences settings model.ownFields
  pure (references.map fun reference => (Naming.sanitize model.name, reference))

/-- The visible references of the models of a run, each with the name of its root type. -/
def Run.references (run : Run) (models : List ModelDecl) : List (String × Reference) :=
  ((models.mapM (ModelDecl.references run.settings)).run []).1.flatten

namespace KeptField

open FieldDecl

variable {settings : SynthSettings}

theorem references_ofScalar (head : FieldHead) (inList : Bool) (typeName : String)
    (kind : ScalarKind) (values : List String) :
    references (ofScalar head inList typeName kind values) = [] := by
  rw [ofScalar]
  split <;> rw [references]

theorem references_ofNested (head : FieldHead) (inList : Bool) (object : String)
    (kept : List KeptField) : referencesAll (ofNested head inList object kept).toList =
      (referencesAll kept).map (Reference.below head.source) := by
  cases kept with
  | nil => rfl
  | cons first rest =>
    change referencesAll [.shape head inList object false (first :: rest)] = _
    rw [referencesAll, references, referencesAll, List.append_nil]

theorem references_ofEmbedded (head : FieldHead) (inList : Bool) (object : String)
    (kept : List KeptField) (seen : Seen) :
    referencesAll ((ofEmbedded head inList object kept).run seen).1.toList =
        (referencesAll kept).map (Reference.below head.source) ∧
      ((ofEmbedded head inList object kept).run seen).2.embedded = seen.embedded := by
  cases kept with
  | nil => exact ⟨rfl, rfl⟩
  | cons first rest =>
    refine ⟨?_, rfl⟩
    change referencesAll [.shape head inList object true (first :: rest)] = _
    rw [referencesAll, references, referencesAll, List.append_nil]

theorem references_known (head : FieldHead) (inList : Bool) (known : Option FieldType) :
    referencesAll (known.map fun type => value head (.listIf inList type) []).toList = [] := by
  cases known with
  | none => rfl
  | some type =>
    rw [Option.map_some, Option.toList_some, referencesAll, references, referencesAll]
    rfl

theorem referencesAll_append (kept others : List KeptField) :
    referencesAll (kept ++ others) = referencesAll kept ++ referencesAll others := by
  induction kept with
  | nil => rfl
  | cons first rest ih => rw [List.cons_append, referencesAll, referencesAll, ih, List.append_assoc]

section Meet

variable (head : FieldHead) (inList : Bool) {model typeName : String} {decls : List FieldDecl}

/-- An embedded shape has its references where it is met first. -/
theorem run_embeddedReferences (seen : Seen)
    (h : ∀ seen : Seen, (visibleReferences settings decls).run seen.embedded =
      (referencesAll ((keepAll settings (Naming.embeddedType model) decls).run seen).1,
        ((keepAll settings (Naming.embeddedType model) decls).run seen).2.embedded)) :
    (do
        if ← announce model then
          let inner ← visibleReferences settings decls
          pure (inner.map (Reference.below head.source))
        else pure [] : StateM (List String) (List Reference)).run seen.embedded =
      let kept := (do
        match ← meet model with
        | some known => pure (known.map fun type => value head (.listIf inList type) [])
        | none =>
          let kept ← keepAll settings (Naming.embeddedType model) decls
          ofEmbedded head inList (Naming.embeddedType model) kept : StateM Seen _).run seen
      (referencesAll kept.1.toList, kept.2.embedded) := by
  have hmeet := run_meet model seen
  have hannounce := run_announce model seen.embedded
  dsimp only
  by_cases hmet : model ∈ seen.embedded
  · rw [if_pos hmet] at hmeet hannounce
    rw [run_bind, run_bind, hmeet, hannounce]
    exact congrArg (·, seen.embedded) (references_known head inList _).symm
  · rw [if_neg hmet] at hmeet hannounce
    let entered : Seen := { seen with embedded := model :: seen.embedded }
    have hinner := h entered
    obtain ⟨hreferences, hembedded⟩ := references_ofEmbedded head inList
      (Naming.embeddedType model)
      ((keepAll settings (Naming.embeddedType model) decls).run entered).1
      ((keepAll settings (Naming.embeddedType model) decls).run entered).2
    rw [run_bind, run_bind, hmeet, hannounce]
    refine Eq.trans ?_ (congrArg₂ Prod.mk hreferences.symm hembedded.symm)
    change (((visibleReferences settings decls).run entered.embedded).1.map _,
      ((visibleReferences settings decls).run entered.embedded).2) = _
    rw [hinner]

end Meet

mutual

/-- The references of what is kept are the visible ones, and the same embedded models are met. -/
theorem run_visibleReferences (typeName : String) : (decls : List FieldDecl) → (seen : Seen) →
    (visibleReferences settings decls).run seen.embedded =
      (referencesAll ((keepAll settings typeName decls).run seen).1,
        ((keepAll settings typeName decls).run seen).2.embedded)
  | [], seen => by
    rw [visibleReferences, keepAll]
    rfl
  | decl :: rest, seen => by
    rw [visibleReferences, keepAll, run_bind, run_bind, run_bind, run_bind,
      run_ownReferences typeName decl seen, run_visibleReferences typeName rest]
    exact congrArg (·, _) (referencesAll_append _ _).symm

theorem run_ownReferences (typeName : String) : (decl : FieldDecl) → (seen : Seen) →
    (ownReferences settings decl).run seen.embedded =
      (referencesAll ((keep settings typeName decl).run seen).1.toList,
        ((keep settings typeName decl).run seen).2.embedded)
  | ⟨source, content, nonNull, isHidden, description, hooks⟩, seen => by
    rw [ownReferences, keep]
    split
    · rfl
    · exact run_shapeReferences typeName ⟨source, nonNull, description, hooks⟩ content seen

theorem run_shapeReferences (typeName : String) (head : FieldHead) :
    (content : FieldShape FieldDecl) → (seen : Seen) →
    (shapeReferences settings head.source head.nonNull content).run seen.embedded =
      (referencesAll ((keepShape settings typeName head content).run seen).1.toList,
        ((keepShape settings typeName head content).run seen).2.embedded)
  | .scalar kind values, seen => by
    rw [shapeReferences, keepShape]
    change _ = (referencesAll [ofScalar head false typeName kind values], _)
    rw [referencesAll, references_ofScalar]
    rfl
  | .list element, seen => by
    rw [shapeReferences, keepShape]
    exact run_elementReferences typeName head element seen
  | .nested decls, seen => by
    rw [shapeReferences, keepShape, run_bind, run_bind,
      run_visibleReferences (Naming.nestedType typeName head.source) decls]
    exact congrArg (·, _) (references_ofNested head false _ _).symm
  | .embedded model decls, seen => by
    rw [shapeReferences, keepShape]
    exact run_embeddedReferences head false seen
      (run_visibleReferences (Naming.embeddedType model) decls)
  | .reference target cardinality, seen => by
    rw [shapeReferences, keepShape]
    change _ = (referencesAll [.reference head target cardinality], _)
    rw [referencesAll, references, referencesAll]
    rfl

theorem run_elementReferences (typeName : String) (head : FieldHead) :
    (element : ElementShape FieldDecl) → (seen : Seen) →
    (elementReferences settings head.source element).run seen.embedded =
      (referencesAll ((keepElement settings typeName head element).run seen).1.toList,
        ((keepElement settings typeName head element).run seen).2.embedded)
  | .scalar kind values, seen => by
    rw [elementReferences, keepElement]
    change _ = (referencesAll [ofScalar head true typeName kind values], _)
    rw [referencesAll, references_ofScalar]
    rfl
  | .nested decls, seen => by
    rw [elementReferences, keepElement, run_bind, run_bind,
      run_visibleReferences (Naming.nestedType typeName head.source) decls]
    exact congrArg (·, _) (references_ofNested head true _ _).symm
  | .embedded model decls, seen => by
    rw [elementReferences, keepElement]
    exact run_embeddedReferences head true seen
      (run_visibleReferences (Naming.embeddedType model) decls)

end

end KeptField

/-! ### The types of references -/

/-- The names of the connections of a model. -/
def KeptModel.connectionNames (model : KeptModel) : List String :=
  (model.slots.filter fun slot => slot.cardinality = .plural).map fun slot =>
    Naming.connectionType slot.owner slot.path

/-- The connections of models are those of their plural slots. -/
theorem map_connectionType_flatMap_slots (models : List KeptModel) :
    (((models.flatMap KeptModel.slots).filter fun slot => slot.cardinality = .plural).map
      fun slot => Naming.connectionType slot.owner slot.path) =
        models.flatMap KeptModel.connectionNames := by
  simp only [List.filter_flatMap, List.map_flatMap]
  rfl

namespace Run

variable (run : Run) (models : List ModelDecl)

/-- The slots of a run are those of its visible references. -/
theorem references_eq : run.references models =
    (run.kept models).flatMap fun model =>
      model.references.map fun reference => (model.owner, reference) := by
  have hmodel : ∀ (model : ModelDecl) (seen : Seen),
      (model.references run.settings).run seen.embedded =
        (((model.keep run.settings).run seen).1.references.map fun reference =>
          (((model.keep run.settings).run seen).1.owner, reference),
        ((model.keep run.settings).run seen).2.embedded) := by
    intro model seen
    rw [ModelDecl.references, ModelDecl.keep, run_bind, run_bind,
      KeptField.run_visibleReferences (Naming.sanitize model.name)]
    rfl
  have hmapM : ∀ seen : Seen,
      (models.mapM (ModelDecl.references run.settings)).run seen.embedded =
        (((models.mapM (ModelDecl.keep run.settings)).run seen).1.map fun model =>
          model.references.map fun reference => (model.owner, reference),
        ((models.mapM (ModelDecl.keep run.settings)).run seen).2.embedded) := by
    induction models with
    | nil => exact fun _ => rfl
    | cons model rest ih =>
      intro seen
      have hrest := ih ((model.keep run.settings).run seen).2
      rw [List.mapM_cons, List.mapM_cons, run_bind, run_bind, run_bind, run_bind, hmodel, hrest]
      rfl
  rw [references, kept, List.flatMap_def]
  exact congrArg (fun found => found.1.flatten) (hmapM {})

/-- The names of all types that a run makes, each as often as it is made: roots, nested and embedded
types, enums, connections and inputs. -/
def generatedNames : List String :=
  (models.map fun model => Naming.sanitize model.name)
    ++ (run.kept models).flatMap KeptModel.objectNames
    ++ (run.kept models).flatMap KeptModel.enumNames
    ++ (run.kept models).flatMap KeptModel.connectionNames
    ++ (run.layOut models).inputs.keys

end Run

namespace Arena

/-- The path of a slot has the output names on the way to its reference. -/
theorem outputPath_slot {owner : String} {reference : Reference}
    (hsegments : ∀ name ∈ reference.trail, Path.IsSegment name) (hne : reference.trail ≠ []) :
    outputPath (reference.slot owner "").path = reference.names :=
  congrArg (List.map Naming.sanitize) (Path.segments_joined hsegments hne)

/-- The slots of kept models wait at their places when the names on the way read back from paths. -/
theorem LaidOut.waiting {models : List KeptModel} {arena : Arena} (h : LaidOut models arena)
    (hpaths : ∀ model ∈ models, ∀ reference ∈ model.references,
      outputPath (reference.slot model.owner "").path = reference.names) :
    Waiting arena arena.pending := by
  intro slot hslot
  rw [h.pending] at hslot
  obtain ⟨model, hmodel, hslot⟩ := List.mem_flatMap.1 hslot
  obtain ⟨reference, href, rfl⟩ := List.mem_map.1 hslot
  obtain ⟨root, hroot, hstands⟩ := h.stands model hmodel
  obtain ⟨source, rest, field, htrail, hfield, hpath⟩ := hstands.found _ _ _ _ reference href
  have hat : arena.fieldAt? ⟨.root model.owner, Naming.sanitize source⟩ = some field := by
    rw [fieldAt?, holder?, hroot, Option.bind_some]
    exact hfield
  obtain ⟨place, last, hlocate, hlast, htype⟩ := exists_locate hat hpath
  refine ⟨place, last, ?_, hlast, htype⟩
  rw [placeOf, hpaths model hmodel reference href, Reference.names, htrail]
  exact hlocate

end Arena

theorem KeptModel.trail_ne_nil {kept : KeptModel} {reference : Reference}
    (h : reference ∈ kept.references) : reference.trail ≠ [] := by
  obtain ⟨field, -, hfield⟩ := KeptField.mem_referencesAll.1 h
  exact KeptField.trail_ne_nil hfield

namespace Run

variable {run : Run} {models : List ModelDecl} {graph : TypeGraph}

/-- The paths of slots of well-named models read back. -/
theorem outputPath_of_kept (hnamed : ∀ model ∈ models, model.WellNamed run.settings)
    {kept : KeptModel} (hkept : kept ∈ run.kept models) {reference : Reference}
    (href : reference ∈ kept.references) :
    Arena.outputPath (reference.slot kept.owner "").path = reference.names :=
  Arena.outputPath_slot (isSegment_of_kept hnamed hkept href) (KeptModel.trail_ne_nil href)

/-- A run that makes no type name twice. -/
structure NamesApart (run : Run) (models : List ModelDecl) : Prop where
  owners : (models.map fun model => Naming.sanitize model.name).Nodup
  objects : ((run.kept models).flatMap KeptModel.objectNames).Nodup
  connections : ((run.kept models).flatMap KeptModel.connectionNames).Nodup
  object_notMem : ∀ name ∈ (run.kept models).flatMap KeptModel.objectNames,
    name ∉ models.map (fun model => Naming.sanitize model.name) ∧
      name ∉ (run.kept models).flatMap KeptModel.enumNames ∧
      name ∉ (run.kept models).flatMap KeptModel.connectionNames ∧
      name ∉ (run.layOut models).inputs.keys

theorem namesApart (h : (run.generatedNames models).Nodup) : run.NamesApart models := by
  obtain ⟨hconnections, -, hinputs⟩ := List.nodup_append.1 h
  obtain ⟨henums, hnodup, hconnections⟩ := List.nodup_append.1 hconnections
  obtain ⟨hobjects, -, henums⟩ := List.nodup_append.1 henums
  obtain ⟨howners, hobjects, hroots⟩ := List.nodup_append.1 hobjects
  refine ⟨howners, hobjects, hnodup, fun name hname => ⟨?_, ?_, ?_, ?_⟩⟩
  · exact fun hmem => hroots name hmem name hname rfl
  · exact fun hmem => henums name (by simp [hname]) name hmem rfl
  · exact fun hmem => hconnections name (by simp [hname]) name hmem rfl
  · exact fun hmem => hinputs name (by simp [hname]) name hmem rfl

section Resolved

variable {arena : Arena} (hnamed : ∀ model ∈ models, model.WellNamed run.settings)
  (hapart : run.NamesApart models)
  (hresolve : (run.layOut models).resolve (modelTypeNames models) = .ok arena)

include hnamed hapart hresolve

/-- In the arena of a run every slot of the first phase has its resolved type. -/
theorem settled : Arena.Settling (run.layOut models) (run.layOut models).pending
    (run.layOut models).pending arena := by
  obtain ⟨-, rfl⟩ := Arena.resolve_eq_ok_iff.1 hresolve
  have hlaid := run.laidOut models hnamed hapart.owners hapart.objects
  exact Arena.settling_settled (hlaid.waiting fun _ hkept _ href =>
    outputPath_of_kept hnamed hkept href)

/-- The connections of a run are named for its plural slots. -/
theorem mem_connectionNames {name : String} (h : name ∈ arena.connections.keys) :
    name ∈ (run.kept models).flatMap KeptModel.connectionNames := by
  have hlaid := run.laidOut models hnamed hapart.owners hapart.objects
  obtain ⟨-, rfl⟩ := Arena.resolve_eq_ok_iff.1 hresolve
  obtain ⟨connection, hget⟩ := OrderedMap.mem_keys_iff.1 h
  rw [← map_connectionType_flatMap_slots, ← hlaid.pending]
  rcases Arena.exists_of_connections_settleAll hget with hbefore | ⟨slot, hslot, hplural, rfl, rfl⟩
  · change (run.layOut models).connections.get? name = _ at hbefore
    rw [hlaid.connections] at hbefore
    cases hbefore
  · exact List.mem_map.2 ⟨slot, List.mem_filter.2 ⟨hslot, decide_eq_true hplural⟩, rfl⟩

/-- The graph of a run finds the nested and embedded types of its arena. -/
theorem object?_of_arena {name : String} {type : ObjectType}
    (h : arena.objects.get? name = some type) :
    (run.graphOf models arena).object? name = some type := by
  have hlaid := run.laidOut models hnamed hapart.owners hapart.objects
  obtain ⟨-, hsettled⟩ := Arena.resolve_eq_ok_iff.1 hresolve
  obtain ⟨-, hobjects, henums, hinputs⟩ := hsettled ▸ Arena.settled_frame (run.layOut models)
  have hname : name ∈ (run.kept models).flatMap KeptModel.objectNames := by
    rw [← hlaid.objects, ← hobjects]
    exact OrderedMap.mem_keys_of_get? h
  obtain ⟨hmodel, henum, hconnection, hinput⟩ := hapart.object_notMem name hname
  refine run.object?_graphOf models arena h hmodel ?_ ?_ ?_
  · rw [henums]
    exact fun hmem => henum ((hlaid.enums name).1 hmem)
  · rwa [hinputs]
  · exact fun hmem => hconnection (mem_connectionNames hnamed hapart hresolve hmem)

/-- The field of a visible reference is found in the graph with the resolved type of its slot. -/
theorem exists_field {kept : KeptModel} (hkept : kept ∈ run.kept models) {reference : Reference}
    (href : reference ∈ kept.references) :
    ∃ field, (run.graphOf models arena).fieldAt? kept.owner (".".intercalate reference.names) =
        some field ∧
      field.type =
        Arena.resolvedType (reference.slot kept.owner "") (Naming.sanitize reference.target) := by
  have hlaid := run.laidOut models hnamed hapart.owners hapart.objects
  have hsettled := settled hnamed hapart hresolve
  have hne := KeptModel.trail_ne_nil href
  have hslot : reference.slot kept.owner "" ∈ (run.layOut models).pending := by
    rw [hlaid.pending]
    exact List.mem_flatMap.2 ⟨kept, hkept, List.mem_map.2 ⟨reference, href, rfl⟩⟩
  obtain ⟨place, field, hplace, hfield, htype⟩ := hsettled.resolved _ hslot hslot
  rw [← hsettled.places _ hslot, Arena.placeOf, outputPath_of_kept hnamed hkept href] at hplace
  obtain ⟨root, hroot⟩ := Arena.exists_holder hplace hfield
  have howner : kept.owner ∈ models.map fun model => Naming.sanitize model.name := by
    rw [← owners_kept run]
    exact List.mem_map.2 ⟨kept, hkept, rfl⟩
  have hobject : (run.graphOf models arena).object? kept.owner = some root := by
    change arena.roots.get? kept.owner = some root at hroot
    rw [TypeGraph.object?, run.model?_graphOf models arena howner, hroot]
  have hnames : ∀ name ∈ reference.names, Path.IsSegment name := by
    intro name hname
    obtain ⟨source, -, rfl⟩ := List.mem_map.1 hname
    exact Naming.isSegment_sanitize source
  refine ⟨field, ?_, htype⟩
  rw [TypeGraph.fieldAt?, hobject, Option.bind_some,
    ← Path.joined_eq_intercalate fun name hname => (hnames name hname).1,
    Path.segments_joined hnames (by simpa [Reference.names] using hne)]
  exact TypeGraph.fieldAlong?_of_locate
    (fun _ _ h => object?_of_arena hnamed hapart hresolve h) hroot hplace hfield

/-- The connection of a plural reference is found in the graph. -/
theorem connection?_of_plural {kept : KeptModel} (hkept : kept ∈ run.kept models)
    {reference : Reference} (href : reference ∈ kept.references)
    (hplural : reference.cardinality = .plural) :
    (run.graphOf models arena).connection?
        (Naming.connectionType kept.owner (".".intercalate reference.trail)) =
      some ⟨Naming.connectionType kept.owner (".".intercalate reference.trail),
        Naming.edgeType kept.owner (".".intercalate reference.trail),
        Naming.sanitize reference.target⟩ := by
  have hlaid := run.laidOut models hnamed hapart.owners hapart.objects
  have hslot : reference.slot kept.owner "" ∈ (run.layOut models).pending := by
    rw [hlaid.pending]
    exact List.mem_flatMap.2 ⟨kept, hkept, List.mem_map.2 ⟨reference, href, rfl⟩⟩
  have hnodup := hapart.connections
  rw [← map_connectionType_flatMap_slots, ← hlaid.pending] at hnodup
  obtain ⟨-, rfl⟩ := Arena.resolve_eq_ok_iff.1 hresolve
  have hnew : (run.layOut models).connections.get? (Naming.connectionType kept.owner
      (reference.slot kept.owner "").path) = none := by
    rw [hlaid.connections]
    rfl
  have hget : (run.layOut models).settled.connections.get? _ = _ :=
    Arena.get?_connections_settleAll_of_nodup hnodup hslot hplural hnew
  have hpath : (reference.slot kept.owner "").path = ".".intercalate reference.trail :=
    Path.joined_eq_intercalate fun name hname =>
      (isSegment_of_kept hnamed hkept href name hname).1
  rw [hpath] at hget
  change (run.layOut models).settled.connections.get? (Naming.connectionType kept.owner _) = _ at hget
  rw [TypeGraph.connection?, type?_graphOf, Arena.get?_namedTypes, hget, Arena.connectionOf, hpath]
  rfl

end Resolved

/-- Every visible reference ends with the type of its target, when the visible fields are well-named
and no type name is made twice: a single one with the target's object type, non-null when it is
declared so, and a plural one with a connection to the target that is named after the path. -/
theorem synthesize_resolves (hok : run.synthesize models = .ok graph)
    (hnamed : ∀ model ∈ models, model.WellNamed run.settings)
    (hdistinct : (run.generatedNames models).Nodup) :
    ∀ owner reference, (owner, reference) ∈ run.references models →
      ∃ field,
        graph.fieldAt? owner (".".intercalate (reference.trail.map Naming.sanitize)) = some field ∧
        match reference.cardinality with
        | .single =>
          field.type =
            if reference.nonNull then .nonNull (.object (Naming.sanitize reference.target))
            else .object (Naming.sanitize reference.target)
        | .plural =>
          let path := ".".intercalate reference.trail
          field.type = .nonNull (.connection (Naming.connectionType owner path)) ∧
            graph.connection? (Naming.connectionType owner path) =
              some ⟨Naming.connectionType owner path, Naming.edgeType owner path,
                Naming.sanitize reference.target⟩ := by
  obtain ⟨-, arena, hresolve, -, -, rfl⟩ := synthesize_eq_ok_iff.1 hok
  have hapart := namesApart hdistinct
  intro owner reference hmem
  rw [references_eq] at hmem
  obtain ⟨kept, hkept, hmem⟩ := List.mem_flatMap.1 hmem
  obtain ⟨_, href, hpair⟩ := List.mem_map.1 hmem
  cases hpair
  obtain ⟨field, hfield, htype⟩ := exists_field hnamed hapart hresolve hkept href
  have hpath : (reference.slot kept.owner "").path = ".".intercalate reference.trail :=
    Path.joined_eq_intercalate fun name hname =>
      (isSegment_of_kept hnamed hkept href name hname).1
  refine ⟨field, hfield, ?_⟩
  rw [Arena.resolvedType, hpath] at htype
  change field.type = match reference.cardinality with
    | .single => if reference.nonNull then _ else _
    | .plural => .nonNull (.connection (Naming.connectionType kept.owner _)) at htype
  cases hcardinality : reference.cardinality with
  | single =>
    rw [hcardinality] at htype
    exact htype
  | plural =>
    rw [hcardinality] at htype
    exact ⟨htype, connection?_of_plural hnamed hapart hresolve hkept href hcardinality⟩

end Run

namespace ModelDecl

/-- A model that embeds places, first below `home` and then among its books. -/
def author : ModelDecl where
  key := "authors"
  name := "author"
  fields := [.scalar "id" .objectId,
    .embedded "home" "place" [(FieldDecl.reference "city" "big city").asNonNull],
    .nested "books" [.enumeration "kind" ["novel"], .references "co-authors" "author",
      .embedded "printed at" "place" [.reference "ignored" "nobody"]]]

/-- A model with a reference below nested shapes. -/
def city : ModelDecl where
  key := "cities"
  name := "big city"
  fields := [.nested "mayor" [.nested "since" [.reference "person" "author"]]]

end ModelDecl

theorem Run.synthesize_author_city :
    (∀ model ∈ [ModelDecl.author, ModelDecl.city], model.WellNamed {}) ∧
      ((Run.mk {} ⟨0⟩ 0).generatedNames [.author, .city]).Nodup ∧
      ∃ graph, (Run.mk {} ⟨0⟩ 0).synthesize [.author, .city] = .ok graph ∧
        (∃ field, graph.fieldAt? "author" "home.city" = some field ∧
          field.type = .nonNull (.object "big_city")) ∧
        ∃ field, graph.fieldAt? "author" "books.co_authors" = some field ∧
          field.type = .nonNull (.connection "authorBooksCo_authorsConnection") := by
  have hnamed : ∀ model ∈ [ModelDecl.author, ModelDecl.city], model.WellNamed {} := by
    decide +kernel
  have hdistinct : ((Run.mk {} ⟨0⟩ 0).generatedNames [.author, .city]).Nodup := by decide +kernel
  have hsome : ((Run.mk {} ⟨0⟩ 0).synthesize [.author, .city]).isOk = true := by decide +kernel
  obtain ⟨graph, hok⟩ : ∃ graph, (Run.mk {} ⟨0⟩ 0).synthesize [.author, .city] = .ok graph := by
    cases h : (Run.mk {} ⟨0⟩ 0).synthesize [.author, .city] with
    | error e =>
      rw [h] at hsome
      cases hsome
    | ok graph => exact ⟨graph, rfl⟩
  refine ⟨hnamed, hdistinct, graph, hok, ?_, ?_⟩
  · obtain ⟨field, hfield, htype⟩ := synthesize_resolves hok hnamed hdistinct "author"
      ⟨["home", "city"], "big city", .single, true⟩ (by decide +kernel)
    refine ⟨field, ?_, htype.trans (by decide +kernel)⟩
    exact (congrArg (graph.fieldAt? "author") (by decide +kernel)).trans hfield
  · obtain ⟨field, hfield, htype, -⟩ := synthesize_resolves hok hnamed hdistinct "author"
      ⟨["books", "co-authors"], "author", .plural, false⟩ (by decide +kernel)
    refine ⟨field, ?_, htype.trans (by decide +kernel)⟩
    exact (congrArg (graph.fieldAt? "author") (by decide +kernel)).trans hfield

end ModelGraph
