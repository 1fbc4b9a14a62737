import ModelGraph.Proofs.Graph.Dropped

/-!
# Exactly the visible fields

Every model has a root with its identity field and exactly those of its other fields that are not
dropped, in the order of their declarations. The type of a visited shape likewise has exactly the
fields of the shape that are not dropped, and a shape whose fields are all dropped has no type.

## Main definitions

- `FieldDecl.shown` — the declared fields that are not dropped
- `FieldDecl.entry` — the key and the outline of the output field of a declared field

## Main statements

- `KeptField.Picks.outlines_eq` — the kept fields are those that are shown
- `Run.Legible.root_shows` — the root of a model in a legible run
- `Run.shown_of_synthesize` — the types of a graph have exactly the fields that are shown
-/

namespace ModelGraph

/-! ### What types show -/

/-- The key and the outline of the output field of a declared field. -/
def FieldDecl.entry (decl : FieldDecl) : String × FieldOutline :=
  (Naming.sanitize decl.name,
    ⟨Naming.sanitize decl.name, decl.name, decl.description, decl.hooks⟩)

open scoped Classical in
/-- The declared fields that are not dropped, in order. -/
noncomputable def FieldDecl.shown (settings : SynthSettings)
    (first : String → Option (List FieldDecl)) (decls : List FieldDecl) : List FieldDecl :=
  decls.filter fun decl => ¬ Dropped settings first decl

theorem FieldDecl.shown_ne_nil_iff {settings : SynthSettings}
    {first : String → Option (List FieldDecl)} {decls : List FieldDecl} :
    shown settings first decls ≠ [] ↔ ∃ decl ∈ decls, ¬ Dropped settings first decl := by
  rw [shown, ne_eq, List.filter_eq_nil_iff]
  simp

/-- The keys and outlines of fields, in order. -/
def OrderedMap.outlineEntries (fields : List (String × OutputField)) :
    List (String × FieldOutline) :=
  fields.map fun entry => (entry.1, entry.2.outline)

theorem OrderedMap.entries_map_outline (fields : OrderedMap String OutputField) :
    (fields.map OutputField.outline).entries = outlineEntries fields.toList := rfl

namespace KeptField

variable {settings : SynthSettings} {first : String → Option (List FieldDecl)}

/-- When no dropped field is kept, the kept fields are just those that are shown. -/
theorem Picks.outlines_eq {decls : List FieldDecl} {kept : List KeptField}
    (h : Picks settings first decls kept)
    (hkept : ∀ field ∈ kept, ∀ decl : FieldDecl,
      Arena.isExcluded settings decl.name decl.hidden = false → Of settings first decl field →
        ¬ FieldDecl.Dropped settings first decl) :
    outlines kept = (FieldDecl.shown settings first decls).map FieldDecl.entry := by
  classical
  induction decls generalizing kept with
  | nil =>
    cases h
    rfl
  | cons decl rest ih =>
    rw [FieldDecl.shown, List.filter_cons]
    cases h with
    | drop hdropped hrest =>
      rw [if_neg (by simpa using hdropped)]
      exact ih hrest hkept
    | @keep _ _ field others hvisible hhead hof hrest =>
      obtain ⟨hown, hothers⟩ := List.forall_mem_cons.1 hkept
      rw [if_pos (by simpa using hown decl hvisible hof), List.map_cons]
      have hentry : (field.name, field.outline) = decl.entry := by
        rw [KeptField.outline, name, hhead]
        rfl
      exact List.cons_eq_cons.2 ⟨hentry, ih hrest hothers⟩

mutual

theorem exists_of_mem_shapes (owner path : String) : (kept : KeptField) → Distinct kept →
    ∀ shape ∈ shapes kept, (shape.fields.map name).Nodup ∧ ∃ found ∈ placed owner path kept,
      ∃ head inList, found.field = .shape head inList shape.object shape.embedded shape.fields
  | .value _ _ _, _ | .reference _ _ _, _ => by
    rw [shapes]
    exact fun _ h => absurd h List.not_mem_nil
  | .shape head inList object embedded fields, h => by
    rw [Distinct] at h
    rw [shapes, placed]
    intro shape hshape
    rcases List.mem_append.1 hshape with hshape | hshape
    · obtain ⟨hnodup, found, hfound, heq⟩ :=
        exists_of_mem_shapesAll owner (Path.child path head.source) fields h.2 shape hshape
      exact ⟨hnodup, found, List.mem_cons_of_mem _ hfound, heq⟩
    · obtain rfl := List.mem_singleton.1 hshape
      exact ⟨h.1, _, List.mem_cons_self .., head, inList, rfl⟩

/-- An object type that fields add is that of a shape at some depth, and its fields have different
names when siblings do. -/
theorem exists_of_mem_shapesAll (owner path : String) : (kept : List KeptField) →
    DistinctAll kept → ∀ shape ∈ shapesAll kept, (shape.fields.map name).Nodup ∧
      ∃ found ∈ placedAll owner path kept, ∃ head inList,
        found.field = .shape head inList shape.object shape.embedded shape.fields
  | [], _ => by
    rw [shapesAll]
    exact fun _ h => absurd h List.not_mem_nil
  | kept :: rest, h => by
    rw [DistinctAll] at h
    rw [shapesAll, placedAll]
    intro shape hshape
    rcases List.mem_append.1 hshape with hshape | hshape
    · obtain ⟨hnodup, found, hfound, heq⟩ :=
        exists_of_mem_shapes owner path kept h.1 shape hshape
      exact ⟨hnodup, found, List.mem_append_left _ hfound, heq⟩
    · obtain ⟨hnodup, found, hfound, heq⟩ :=
        exists_of_mem_shapesAll owner path rest h.2 shape hshape
      exact ⟨hnodup, found, List.mem_append_right _ hfound, heq⟩

end

/-- The outlines of fields with different names are the entries of the map of them. -/
theorem entries_outlines {kept : List KeptField} (h : (kept.map name).Nodup) :
    (OrderedMap.ofList (outlines kept)).entries = outlines kept := by
  refine OrderedMap.entries_ofList ?_
  rw [outlines, List.map_map]
  exact h

end KeptField

namespace Run

variable {run : Run} {models : List ModelDecl}

/-- A kept field of a run is of no dropped field. -/
theorem not_dropped_of_mem (hapart : KeptField.NamedApart (run.firstFields models))
    {field : KeptField} (hfield : ∃ placed ∈ run.placed models, placed.field = field)
    (decl : FieldDecl) (hvisible : Arena.isExcluded run.settings decl.name decl.hidden = false)
    (hof : KeptField.Of run.settings (run.firstFields models) decl field) :
    ¬ FieldDecl.Dropped run.settings (run.firstFields models) decl := by
  obtain ⟨placed, hplaced, rfl⟩ := hfield
  exact fun hdropped => not_of_dropped hapart hdropped hvisible hplaced hof

/-- A model keeps just the fields that are shown. -/
theorem outlines_of_kept (hapart : KeptField.NamedApart (run.firstFields models))
    {kept : KeptModel} (hkept : kept ∈ run.kept models) {decls : List FieldDecl}
    (hpicks : KeptField.Picks run.settings (run.firstFields models) decls kept.fields) :
    KeptField.outlines kept.fields =
      (FieldDecl.shown run.settings (run.firstFields models) decls).map FieldDecl.entry :=
  hpicks.outlines_eq fun _ hfield => not_dropped_of_mem hapart
    ⟨_, List.mem_flatMap.2 ⟨kept, hkept, KeptField.mem_placedAll_self hfield⟩, rfl⟩

/-- An object type that is kept of a visited shape has just the fields that are shown, and there is
one. -/
theorem outlines_of_shape (hapart : KeptField.NamedApart (run.firstFields models))
    (hsiblings : ∀ kept ∈ run.kept models, kept.SiblingsApart) {shape : VisitedShape}
    {found : KeptShape} (hfound : found ∈ run.shapes models)
    (h : shape.KeptAs run.settings (run.firstFields models) found) :
    found.outline.fields.entries =
        (FieldDecl.shown run.settings (run.firstFields models) shape.fields).map FieldDecl.entry ∧
      ∃ decl ∈ shape.fields,
        ¬ FieldDecl.Dropped run.settings (run.firstFields models) decl := by
  obtain ⟨kept, hkept, hmem⟩ := List.mem_flatMap.1 hfound
  obtain ⟨hnodup, placed, hplaced, head, inList, heq⟩ := KeptField.exists_of_mem_shapesAll
    kept.owner "" kept.fields (hsiblings kept hkept).2 found hmem
  have hfields : ∀ field ∈ found.fields, ∃ placed ∈ run.placed models, placed.field = field :=
    fun _ hfield => exists_placed_of_shape (List.mem_flatMap.2 ⟨kept, hkept, hplaced⟩) heq hfield
  rw [KeptShape.outline, KeptField.entries_outlines hnodup]
  refine ⟨h.picks.outlines_eq fun field hfield => not_dropped_of_mem hapart (hfields field hfield),
    ?_⟩
  obtain ⟨field, hfield⟩ := List.exists_mem_of_ne_nil _ h.nonempty
  obtain ⟨decl, hdecl, hvisible, hof⟩ := h.picks.exists_of hfield
  exact ⟨decl, hdecl, not_dropped_of_mem hapart (hfields field hfield) decl hvisible hof⟩

/-! ### Roots -/

variable (run models)

/-- The root of a model is laid out with its identity field and the fields that it keeps. -/
theorem exists_rootOf (howners : (models.map fun model => Naming.sanitize model.name).Nodup) :
    ∀ kept ∈ run.kept models, ∃ model ∈ models, kept.owner = Naming.sanitize model.name ∧
      ∃ declared, (run.layOut models).roots.get? kept.owner =
          some (Arena.rootOf run.settings run.identity model declared) ∧
        declared.map OutputField.outline = .ofList (KeptField.outlines kept.fields) := by
  rw [← owners_kept run] at howners
  refine run.layOut_induct models (P := fun kept arena => (kept.map KeptModel.owner).Nodup →
    ∀ own ∈ kept, ∃ model ∈ models, own.owner = Naming.sanitize model.name ∧
      ∃ declared, arena.roots.get? own.owner =
          some (Arena.rootOf run.settings run.identity model declared) ∧
        declared.map OutputField.outline = .ofList (KeptField.outlines own.fields))
    (fun _ _ h => absurd h List.not_mem_nil) ?_ howners
  intro before arena model hmodel h howners
  rw [List.map_append, List.map_singleton] at howners
  obtain ⟨hbefore, -, hnew⟩ := List.nodup_append.1 howners
  let own := ((model.keep run.settings).run arena.seen).1
  obtain ⟨-, houtlines⟩ := KeptField.writes_all own.owner "" own.fields ∅ arena
  rw [Arena.run_addModel_kept]
  intro kept hkept
  rcases List.mem_append.1 hkept with hkept | hkept
  · obtain ⟨other, hother, howner, declared, hroot, hdeclared⟩ := h hbefore kept hkept
    refine ⟨other, hother, howner, declared, ?_, hdeclared⟩
    change (arena.roots.insert own.owner _).get? kept.owner = _
    rw [OrderedMap.get?_insert_of_ne]
    · exact hroot
    · exact (hnew _ (List.mem_map_of_mem hkept) _ (List.mem_singleton_self _)).symm
  · obtain rfl := List.mem_singleton.1 hkept
    exact ⟨model, hmodel, rfl, _, OrderedMap.get?_insert_self, houtlines⟩

variable {run models}

theorem entries_rootOf {model : ModelDecl} {declared : OrderedMap String OutputField}
    {first : String → Option (List FieldDecl)}
    (h : OrderedMap.outlineEntries declared.toList =
      (FieldDecl.shown run.settings first model.ownFields).map FieldDecl.entry) :
    (Arena.rootOf run.settings run.identity model declared).fields.toList =
      (Identity.field, .ofIdentity (Arena.identitySource run.settings model)) ::
        declared.toList := by
  -- No declared field takes the name of the identity field.
  have hidentity : Identity.field ∉ declared.keys := by
    intro hmem
    have hkeys : declared.keys = (OrderedMap.outlineEntries declared.toList).map Prod.fst := by
      rw [OrderedMap.outlineEntries, List.map_map]
      rfl
    rw [hkeys, h, List.map_map] at hmem
    obtain ⟨decl, hdecl, hname⟩ := List.mem_map.1 hmem
    change Naming.sanitize decl.name = Identity.field at hname
    have hown := (List.mem_filter.1 (List.mem_filter.1 hdecl).1).2
    rw [Arena.isIdentityDecl, decide_eq_true hname] at hown
    cases hown
  have hnodup : (((Identity.field, OutputField.ofIdentity (Arena.identitySource run.settings model))
      :: declared.toList).map Prod.fst).Nodup := List.nodup_cons.2 ⟨hidentity, declared.nodup⟩
  exact OrderedMap.entries_ofList hnodup

/-- The root of a model is laid out with the fields that are shown. -/
theorem Legible.exists_declared (h : run.Legible models)
    (hapart : KeptField.NamedApart (run.firstFields models)) {model : ModelDecl}
    (hmodel : model ∈ models) : ∃ declared,
      (run.layOut models).roots.get? (Naming.sanitize model.name) =
        some (Arena.rootOf run.settings run.identity model declared) ∧
      OrderedMap.outlineEntries declared.toList =
        (FieldDecl.shown run.settings (run.firstFields models) model.ownFields).map
          FieldDecl.entry := by
  have hunique := List.inj_on_of_nodup_map h.owners
  have hname : Naming.sanitize model.name ∈ (run.kept models).map KeptModel.owner := by
    rw [owners_kept]
    exact List.mem_map_of_mem hmodel
  obtain ⟨kept, hkept, howner⟩ := List.mem_map.1 hname
  obtain ⟨model', hmodel', hsame, declared, hroot, hdeclared⟩ :=
    run.exists_rootOf models h.owners kept hkept
  obtain rfl := hunique hmodel hmodel' (howner.symm.trans hsame)
  obtain ⟨model', hmodel', hsame, hpicks⟩ := (picks_and_covers hapart).1 kept hkept
  obtain rfl := hunique hmodel hmodel' (howner.symm.trans hsame)
  refine ⟨declared, howner ▸ hroot, ?_⟩
  rw [← OrderedMap.entries_map_outline, hdeclared,
    KeptField.entries_outlines (h.siblings kept hkept).1, outlines_of_kept hapart hkept hpicks]

/-- The root of a model has its identity field and the fields that are shown. -/
theorem Legible.root_shows (h : run.Legible models)
    (hapart : KeptField.NamedApart (run.firstFields models)) {model : ModelDecl}
    (hmodel : model ∈ models) : ∃ root rest,
      (run.layOut models).settled.roots.get? (Naming.sanitize model.name) = some root ∧
      root.fields.toList =
        (Identity.field, .ofIdentity (Arena.identitySource run.settings model)) :: rest ∧
      OrderedMap.outlineEntries rest =
        (FieldDecl.shown run.settings (run.firstFields models) model.ownFields).map
          FieldDecl.entry := by
  obtain ⟨declared, hbefore, hshown⟩ := h.exists_declared hapart hmodel
  have hentries := entries_rootOf hshown
  have hidentity : (Arena.rootOf run.settings run.identity model declared).fields.get?
      Identity.field = some (.ofIdentity (Arena.identitySource run.settings model)) :=
    OrderedMap.get?_eq_some_iff.2 (show _ ∈ (Arena.rootOf run.settings run.identity model
      declared).fields.toList from hentries ▸ List.mem_cons_self ..)
  obtain ⟨root, hroot⟩ : ∃ root, (run.layOut models).settled.holder?
      (.root (Naming.sanitize model.name)) = some root := by
    refine OrderedMap.mem_keys_iff.1 ?_
    rw [(Arena.settled_frame (run.layOut models)).1]
    exact OrderedMap.mem_keys_of_get? hbefore
  -- Resolving slots leaves the outlines of all fields.
  obtain ⟨old, hold, houtline⟩ := Arena.exists_outline_settleAll hroot
  obtain rfl := Option.some.inj (hbefore.symm.trans hold)
  have hsettled : OrderedMap.outlineEntries root.fields.toList =
      OrderedMap.outlineEntries ((Identity.field,
        .ofIdentity (Arena.identitySource run.settings model)) :: declared.toList) := by
    rw [← hentries, ← OrderedMap.entries_map_outline, ← OrderedMap.entries_map_outline]
    exact congrArg (fun outline => outline.fields.entries) houtline
  obtain ⟨⟨key, field⟩, rest, hlist, hfirst, hrest⟩ := List.map_eq_cons_iff.1 hsettled
  obtain rfl : key = Identity.field := congrArg Prod.fst hfirst
  -- The identity field is no slot, so it is as it was.
  have hfield : (run.layOut models).settled.fieldAt?
      ⟨.root (Naming.sanitize model.name), Identity.field⟩ = some field :=
    Option.bind_eq_some_iff.2 ⟨root, hroot, OrderedMap.get?_eq_some_iff.2
      (show _ ∈ root.fields.toList from hlist ▸ List.mem_cons_self ..)⟩
  obtain ⟨before, hat, rfl⟩ := h.exists_fieldAt? hfield
  rw [Arena.fieldAt?, Arena.holder?, hbefore, Option.bind_some, hidentity] at hat
  obtain rfl := Option.some.inj hat
  exact ⟨root, rest, hroot, hlist, hrest.trans hshown⟩

/-- When siblings have different output names that read back from paths, no type name is made twice,
and different embedded models have types of different names, a run that succeeds shows exactly the
fields that are not excluded and not made of fields that are all left out. A root has its identity
field first and then the ones that its model shows, in order. The type of a visited shape has the
ones that the shape shows, and there are no other object types. -/
theorem shown_of_synthesize {graph : TypeGraph} (h : run.synthesize models = .ok graph)
    (hnamed : ∀ model ∈ models, model.WellNamed run.settings)
    (hdistinct : (run.generatedNames models).Nodup)
    (hembedded : ∀ model ∈ run.embeddedModels models, ∀ other ∈ run.embeddedModels models,
      Naming.embeddedType model = Naming.embeddedType other → model = other) :
    let shown := FieldDecl.shown run.settings (run.firstFields models)
    (∀ decl : FieldDecl, ¬ FieldDecl.Dropped run.settings (run.firstFields models) decl ↔
      Arena.isExcluded run.settings decl.name decl.hidden = false ∧
        ∀ fields, decl.shape.contents (run.firstFields models) = some fields →
          shown fields ≠ []) ∧
    (∀ model ∈ models, ∃ root rest, graph.model? (Naming.sanitize model.name) = some root ∧
      root.fields.toList =
        (Identity.field, .ofIdentity (Arena.identitySource run.settings model)) :: rest ∧
      OrderedMap.outlineEntries rest = (shown model.ownFields).map FieldDecl.entry) ∧
    (∀ shape ∈ run.visited models, shown shape.fields ≠ [] →
      ∃ type, graph.object? shape.object = some type ∧ type.embedded = shape.model?.isSome ∧
        OrderedMap.outlineEntries type.fields.toList =
          (shown shape.fields).map FieldDecl.entry) ∧
    (∀ name type, name ∉ models.map (fun model => Naming.sanitize model.name) →
      graph.object? name = some type →
        ∃ shape ∈ run.visited models, shape.object = name ∧ shown shape.fields ≠ []) := by
  have hlegible := legible_of_wellNamed hnamed hdistinct
  have hapart : KeptField.NamedApart (run.firstFields models) := fun model other hmodel hother =>
    hembedded model (mem_embeddedModels_of_isSome hmodel) other
      (mem_embeddedModels_of_isSome hother)
  have hcovers := (picks_and_covers hapart).2
  obtain ⟨-, arena, hresolve, -, -, rfl⟩ := synthesize_eq_ok_iff.1 h
  obtain ⟨-, rfl⟩ := Arena.resolve_eq_ok_iff.1 hresolve
  have hfinds := run.finds_graphOf models
  intro shown
  refine ⟨fun decl => ?_, fun model hmodel => ?_, fun shape hshape hsome => ?_,
    fun name type hname htype => ?_⟩
  · rw [FieldDecl.not_dropped_iff]
    simp only [shown, FieldDecl.shown_ne_nil_iff]
  · obtain ⟨root, rest, hroot, hlist, hrest⟩ := hlegible.root_shows hapart hmodel
    exact ⟨root, rest,
      (run.model?_graphOf models _ (List.mem_map_of_mem hmodel)).trans hroot, hlist, hrest⟩
  · obtain ⟨decl, hdecl, hnot⟩ := FieldDecl.shown_ne_nil_iff.1 hsome
    rcases hcovers.covered shape hshape with hdropped | ⟨found, hfound, hkept⟩
    · exact absurd (hdropped decl hdecl) hnot
    · obtain ⟨type, htype, houtline⟩ := (hfinds.own hdistinct).objects found hfound
      refine ⟨type, hkept.object ▸ htype, ?_, ?_⟩
      · exact (congrArg ObjectOutline.embedded houtline).trans hkept.embedded
      · rw [← OrderedMap.entries_map_outline]
        exact (congrArg (fun outline => outline.fields.entries) houtline).trans
          (outlines_of_shape hapart hlegible.siblings hfound hkept).1
  · obtain ⟨found, hfind, -⟩ := Option.map_eq_some_iff.1 (hfinds.objects name type hname htype)
    have hfound := List.mem_reverse.1 (List.mem_of_find?_eq_some hfind)
    have hobject : found.object = name := by simpa using List.find?_some hfind
    obtain ⟨shape, hshape, hkept⟩ := hcovers.only found hfound
    exact ⟨shape, hshape, hkept.object.symm.trans hobject,
      FieldDecl.shown_ne_nil_iff.2 (outlines_of_shape hapart hlegible.siblings hfound hkept).2⟩

end Run

/-- A model with shapes that keep no field, one of them by its first occurrence only, and with one
that contains itself. -/
def ModelDecl.folder : ModelDecl where
  key := "folders"
  name := "folder"
  fields := [.scalar "__v" .number, .nested "outer" [.nested "inner" [.scalar "__k" .string]],
    .embedded "vault" "safe" [.scalar "__k" .string],
    .embedded "backup" "safe" [.scalar "k" .string],
    .embedded "top" "entry" [.scalar "title" .string, .list "entries" (.embedded "entry" [])]]

/-- Of the fields of a folder, the one that contains itself is shown. -/
theorem Run.shown_folder : ∃ graph, (Run.mk {} ⟨0⟩ 0).synthesize [.folder] = .ok graph ∧
    (graph.object? "Entry").isSome ∧
    ((FieldDecl.shown {} ((Run.mk {} ⟨0⟩ 0).firstFields [.folder])
      ModelDecl.folder.ownFields).map FieldDecl.entry).map Prod.fst = ["top"] := by
  let result := (Run.mk {} ⟨0⟩ 0).synthesize [.folder]
  obtain ⟨graph, hok⟩ : ∃ graph, result = .ok graph := exists_eq_ok (by decide +kernel)
  have hread : result.toOption.map (fun graph => ((graph.object? "Entry").isSome,
      (graph.model? "folder").map fun root => root.fields.toList.map Prod.fst)) =
        some (true, some ["id", "top"]) := by decide +kernel
  rw [hok] at hread
  obtain ⟨hentry, hfields⟩ := Prod.mk.inj (Option.some.inj hread)
  obtain ⟨-, hroots, -, -⟩ := shown_of_synthesize hok (by decide +kernel) (by decide +kernel)
    (by decide +kernel)
  obtain ⟨root, rest, hroot, hlist, hrest⟩ := hroots .folder (List.mem_singleton_self _)
  refine ⟨graph, hok, hentry, ?_⟩
  rw [show graph.model? "folder" = some root from hroot, Option.map_some, hlist] at hfields
  rw [← hrest, OrderedMap.outlineEntries, List.map_map]
  exact (List.cons.inj (Option.some.inj hfields)).2

end ModelGraph
