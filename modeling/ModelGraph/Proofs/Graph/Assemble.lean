import ModelGraph.Proofs.Graph.Faithful

/-!
# Runs that reuse types

A run gets models, each with the types to reuse for it, if there are any. When the models that are
built anew fit, and all of the models together do, then the graph stands for them, and the new types
can be reused in turn.

## Main definitions

- `Run.Reusable` — types that a model may be replaced by
- `Run.freshOf`, `Run.reusedOf` — the models to build, and the types to reuse

## Main statements

- `Run.foldl_place` — where the roots and the other types of models go
- `Run.Reuses.faithful` — the graph of a run stands for its models
- `Run.Reuses.reusable_freshTypes` — its new types can be reused
- `Run.Reuses.assemble_eq_ok_iff` — when a run succeeds
- `Run.Reuses.validate_of_shows` — when its graph is valid
-/

namespace ModelGraph

namespace Run

/-! ### Placing models -/

section Place

variable (roots : OrderedMap String (Shared ObjectType)) (reused : OrderedMap String ModelTypes)

/-- The root that a model gets, under its name. -/
def placed? (model : ModelDecl) : Option (String × Shared ObjectType) :=
  ((roots.get? model.rootName).or ((reused.get? model.name).map ModelTypes.root)).map
    fun root => (model.rootName, root)

/-- The types that a model lends to a graph: those reused for it when it is not built anew. -/
def lent (model : ModelDecl) : List (Shared NamedType) :=
  match roots.get? model.rootName with
  | some _ => []
  | none => ((reused.get? model.name).map ModelTypes.dependents).getD []

/-- Types with others added whose names are not taken. -/
def lend (types : OrderedMap String (Shared NamedType)) (dependents : List (Shared NamedType)) :
    OrderedMap String (Shared NamedType) :=
  dependents.foldl (fun types dependent => types.insertIfNew dependent.value.name dependent) types

theorem get?_lend (types : OrderedMap String (Shared NamedType))
    (dependents : List (Shared NamedType)) (name : String) :
    (lend types dependents).get? name =
      (types.get? name).or (dependents.find? fun dependent => dependent.value.name = name) := by
  induction dependents generalizing types with
  | nil => exact (Option.or_none).symm
  | cons dependent rest ih =>
    change (lend (types.insertIfNew _ _) rest).get? name = _
    rw [ih, OrderedMap.get?_insertIfNew, List.find?_cons, Option.or_assoc]
    by_cases hname : dependent.value.name = name <;> simp [hname]

/-- Models with different output names go into a graph one by one, each with its root and the types
that it lends. -/
theorem foldl_place {models : List ModelDecl} (hnodup : (models.map ModelDecl.rootName).Nodup)
    (placed : OrderedMap String (Shared ObjectType))
    (types : OrderedMap String (Shared NamedType)) :
    (models.foldl (place reused) (roots, placed, types)).2 =
      (placed.insertMany (models.filterMap (placed? roots reused)),
        lend types (models.flatMap (lent roots reused))) := by
  induction models generalizing roots placed types with
  | nil => rfl
  | cons model rest ih =>
    obtain ⟨hnew, hrest⟩ := List.nodup_cons.1 hnodup
    have hlend : ∀ before after, lend types (before ++ after) = lend (lend types before) after :=
      fun _ _ => List.foldl_append
    rw [List.foldl_cons, List.filterMap_cons, List.flatMap_cons, hlend, place]
    cases hroot : roots.get? (Naming.sanitize model.name) with
    | some root =>
      -- A root is taken out once placed, which the other models do not notice.
      have herase : ∀ other ∈ rest,
          (roots.erase model.rootName).get? other.rootName = roots.get? other.rootName := by
        intro other hother
        rw [OrderedMap.get?_erase, if_neg]
        exact fun heq => hnew (List.mem_map.2 ⟨other, hother, heq.symm⟩)
      have hplaced : rest.filterMap (placed? (roots.erase model.rootName) reused) =
          rest.filterMap (placed? roots reused) :=
        List.filterMap_congr fun other hother => by rw [placed?, placed?, herase other hother]
      have hlent : rest.flatMap (lent (roots.erase model.rootName) reused) =
          rest.flatMap (lent roots reused) :=
        List.flatMap_congr fun other hother => by rw [lent, lent, herase other hother]
      refine (ih (roots.erase model.rootName) hrest _ _).trans ?_
      rw [hplaced, hlent, placed?, lent, ModelDecl.rootName, hroot]
      rfl
    | none =>
      cases hreused : reused.get? model.name with
      | some cached =>
        refine (ih roots hrest _ _).trans ?_
        rw [placed?, lent, ModelDecl.rootName, hroot, hreused]
        rfl
      | none =>
        refine (ih roots hrest _ _).trans ?_
        rw [placed?, lent, ModelDecl.rootName, hroot, hreused]
        rfl

end Place

variable (run : Run)

/-- The graph of models that have different output names, and the types that were built anew. -/
theorem finish_eq {models : List ModelDecl} (hnodup : (models.map ModelDecl.rootName).Nodup)
    (arena : Arena) (reused : OrderedMap String ModelTypes) :
    run.finish arena models reused =
      let roots := run.share .root arena.roots
      let types := run.share .type arena.namedTypes
      ({ identity := run.identity
         models := .ofList (models.filterMap (placed? roots reused))
         types := lend types (models.flatMap (lent roots reused)) },
        freshTypes arena roots types) := by
  let roots := run.share .root arena.roots
  let types := run.share .type arena.namedTypes
  have hplace := foldl_place roots reused hnodup ∅ types
  change (TypeGraph.mk run.identity (models.foldl (place reused) (roots, ∅, types)).2.1
    (models.foldl (place reused) (roots, ∅, types)).2.2, freshTypes arena roots types) = _
  rw [hplace]
  rfl

/-! ### Models and types to reuse -/

/-- Types that a model may be replaced by: its root and the types that it reaches on its own. -/
structure Reusable (model : ModelDecl) (types : ModelTypes) : Prop where
  root : (run.alone model).roots.get? model.rootName = some types.root.value
  dependents : ∀ type, (∃ shared ∈ types.dependents, shared.value = type) ↔
    run.ReachedBy model type.name ∧
      (run.alone model).namedTypes.get? type.name = some type

/-- What stands for a model is among its types, under its own name. -/
theorem Reusable.lends {run : Run} {model : ModelDecl} {types : ModelTypes}
    (h : run.Reusable model types) {dependent : Shared NamedType}
    (hdependent : dependent ∈ types.dependents) :
    run.ReachedBy model dependent.value.name ∧
      (run.alone model).namedTypes.get? dependent.value.name = some dependent.value :=
  (h.dependents _).1 ⟨dependent, hdependent, rfl⟩

/-- The types that are found from a root can be reused for a model with that root, when the names that
it reaches stand for the same as for the model alone. -/
theorem reusable_of_agrees {run : Run} {model : ModelDecl} {root : Shared ObjectType}
    (hroot : (run.alone model).roots.get? model.rootName = some root.value)
    {types : OrderedMap String NamedType}
    (hagrees : ∀ name, run.ReachedBy model name →
      types.get? name = (run.alone model).namedTypes.get? name) (key : String) :
    run.Reusable model ⟨key, root, dependentsOf root.value (run.share .type types)⟩ := by
  have hfind : ∀ name, run.ReachedBy model name → typeOf? (run.share .type types) name =
      (run.alone model).namedTypes.get? name := by
    intro name hreach
    rw [typeOf?_share]
    exact hagrees name hreach
  refine ⟨hroot, fun type => ⟨?_, ?_⟩⟩
  · rintro ⟨shared, hshared, rfl⟩
    obtain ⟨name, hreach, hget⟩ := mem_dependentsOf_iff.1 hshared
    rw [reaches_iff_reachedBy hfind hroot] at hreach
    have htype := hfind name hreach
    rw [typeOf?, hget, Option.map_some] at htype
    rw [(name_of_get? htype.symm).1]
    exact ⟨hreach, htype.symm⟩
  · rintro ⟨hreach, hget⟩
    have htype := hfind _ hreach
    rw [hget, typeOf?] at htype
    obtain ⟨shared, hshared, hvalue⟩ := Option.map_eq_some_iff.1 htype
    exact ⟨shared,
      mem_dependentsOf_iff.2 ⟨_, (reaches_iff_reachedBy hfind hroot).2 hreach, hshared⟩, hvalue⟩

/-- The models to build. -/
def freshOf (entries : List (ModelDecl × Option ModelTypes)) : List ModelDecl :=
  (entries.filter fun entry => entry.2.isNone).map Prod.fst

/-- The types to reuse. -/
def reusedOf (entries : List (ModelDecl × Option ModelTypes)) : OrderedMap String ModelTypes :=
  .ofList <| entries.filterMap fun entry => entry.2.map fun types => (entry.1.name, types)

/-- The types that are built. -/
def built (entries : List (ModelDecl × Option ModelTypes)) : Arena :=
  (run.layOut (freshOf entries)).settled

/-- The types that models lend. -/
def lentOf (models : List ModelDecl) (entries : List (ModelDecl × Option ModelTypes)) :
    List (Shared NamedType) :=
  models.flatMap (lent (run.share .root (run.built entries).roots) (reusedOf entries))

/-- Models, each with types that may be reused for it, if any. -/
structure Reuses (models : List ModelDecl) (entries : List (ModelDecl × Option ModelTypes)) :
    Prop where
  models : entries.map Prod.fst = models
  reusable : ∀ model types, (model, some types) ∈ entries → run.Reusable model types

section Reuses

variable {run : Run} {models : List ModelDecl} {entries : List (ModelDecl × Option ModelTypes)}

theorem mem_freshOf {model : ModelDecl} : model ∈ freshOf entries ↔ (model, none) ∈ entries := by
  simp [freshOf]

theorem Reuses.sublist_freshOf (hentries : run.Reuses models entries) :
    (freshOf entries).Sublist models := by
  rw [← hentries.models]
  exact List.filter_sublist.map Prod.fst

theorem Reuses.mem_models (hentries : run.Reuses models entries) {model : ModelDecl}
    {found : Option ModelTypes} (h : (model, found) ∈ entries) : model ∈ models := by
  rw [← hentries.models]
  exact List.mem_map_of_mem h

theorem Reuses.exists_entry (hentries : run.Reuses models entries) {model : ModelDecl}
    (h : model ∈ models) : ∃ found, (model, found) ∈ entries := by
  rw [← hentries.models] at h
  obtain ⟨⟨model, found⟩, hmem, rfl⟩ := List.mem_map.1 h
  exact ⟨found, hmem⟩

/-- The types to reuse for a model are found under its name, when no other model has that. -/
theorem get?_reusedOf (hnames : (entries.map fun entry => entry.1.name).Nodup) {model : ModelDecl}
    {found : Option ModelTypes} (hfound : (model, found) ∈ entries) :
    (reusedOf entries).get? model.name = found := by
  have hnodup : ((entries.filterMap fun entry =>
      entry.2.map fun types => (entry.1.name, types)).map Prod.fst).Nodup := by
    refine List.pairwise_map.2 (List.pairwise_filterMap.2 ((List.pairwise_map.1 hnames).imp ?_))
    rintro ⟨model, found⟩ ⟨other, found'⟩ hne _ hsome _ hsome'
    obtain ⟨types, -, rfl⟩ := Option.map_eq_some_iff.1 hsome
    obtain ⟨types', -, rfl⟩ := Option.map_eq_some_iff.1 hsome'
    exact hne
  refine Option.ext fun types => ?_
  rw [reusedOf, OrderedMap.get?_ofList_eq_some_iff hnodup, List.mem_filterMap]
  constructor
  · rintro ⟨⟨other, found'⟩, hmem, hsome⟩
    obtain ⟨types', rfl, heq⟩ := Option.map_eq_some_iff.1 hsome
    obtain ⟨hname, rfl⟩ := Prod.mk.inj heq
    exact (congrArg Prod.snd (List.inj_on_of_nodup_map hnames hmem hfound hname)).symm
  · rintro rfl
    exact ⟨_, hfound, rfl⟩

theorem nodup_names (hnames : (models.map ModelDecl.rootName).Nodup) :
    (models.map ModelDecl.name).Nodup := by
  refine List.Nodup.of_map Naming.sanitize ?_
  rw [List.map_map]
  exact hnames

variable (hentries : run.Reuses models entries) (hnames : (models.map ModelDecl.rootName).Nodup)

include hentries hnames

/-- A model has one entry. -/
theorem Reuses.unique {model : ModelDecl} {found other : Option ModelTypes}
    (hfound : (model, found) ∈ entries) (hother : (model, other) ∈ entries) : found = other := by
  have hnodup : (entries.map Prod.fst).Nodup := by
    rw [hentries.models]
    exact List.Nodup.of_map _ hnames
  exact congrArg Prod.snd (List.inj_on_of_nodup_map hnodup hfound hother rfl)

theorem Reuses.get?_reusedOf {model : ModelDecl} {found : Option ModelTypes}
    (hfound : (model, found) ∈ entries) : (reusedOf entries).get? model.name = found := by
  have hnodup := nodup_names hnames
  rw [← hentries.models, List.map_map] at hnodup
  exact Run.get?_reusedOf hnodup hfound

/-- The root of a model that is not built is not among those that are. -/
theorem Reuses.get?_roots_eq_none {model : ModelDecl} {types : ModelTypes}
    (hmem : (model, some types) ∈ entries) :
    (run.built entries).roots.get? model.rootName = none := by
  refine OrderedMap.get?_eq_none_iff.2 fun hroot => ?_
  rw [built, (Arena.settled_frame _).1, (run.holds _).roots, owners_kept] at hroot
  obtain ⟨other, hother, hname⟩ := List.mem_map.1 hroot
  obtain rfl := List.inj_on_of_nodup_map hnames (hentries.sublist_freshOf.subset hother)
    (hentries.mem_models hmem) hname
  cases hentries.unique hnames hmem (mem_freshOf.1 hother)

/-- The types that are lent are those of reused models. -/
theorem Reuses.mem_lentOf_iff {dependent : Shared NamedType} :
    dependent ∈ run.lentOf models entries ↔
      ∃ model types, (model, some types) ∈ entries ∧ dependent ∈ types.dependents := by
  rw [lentOf, List.mem_flatMap]
  constructor
  · rintro ⟨model, hmodel, hlent⟩
    obtain ⟨found, hmem⟩ := hentries.exists_entry hmodel
    rw [lent, get?_share, hentries.get?_reusedOf hnames hmem] at hlent
    split at hlent
    · exact absurd hlent List.not_mem_nil
    · cases found with
      | none => exact absurd hlent List.not_mem_nil
      | some types => exact ⟨model, types, hmem, hlent⟩
  · rintro ⟨model, types, hmem, hdependent⟩
    refine ⟨model, hentries.mem_models hmem, ?_⟩
    rw [lent, get?_share, hentries.get?_roots_eq_none hnames hmem,
      hentries.get?_reusedOf hnames hmem]
    exact hdependent

/-! ### The types of a graph -/

omit hentries in
/-- The types that a run hands out: those it built, then those that are lent. -/
theorem type?_finish (name : String) :
    (run.finish (run.built entries) models (reusedOf entries)).1.type? name =
      ((run.built entries).namedTypes.get? name).or
        (((run.lentOf models entries).find? fun dependent => dependent.value.name = name).map
          Shared.value) := by
  rw [run.finish_eq hnames, TypeGraph.type?]
  change Option.map Shared.value ((lend (run.share .type (run.built entries).namedTypes)
    (run.lentOf models entries)).get? name) = _
  rw [get?_lend, get?_share, Option.map_or, Option.map_map]
  exact congrArg (Option.or · _) Option.map_id'

/-- A type of a graph was built, or a reused model reaches it. -/
theorem Reuses.of_type? {name : String} {type : NamedType}
    (hget : (run.finish (run.built entries) models (reusedOf entries)).1.type? name = some type) :
    (run.built entries).namedTypes.get? name = some type ∨
      ∃ model ∈ models, run.ReachedBy model name ∧
        (run.alone model).namedTypes.get? name = some type := by
  rw [type?_finish hnames] at hget
  refine (Option.or_eq_some_iff.1 hget).imp id fun ⟨_, hlent⟩ => ?_
  obtain ⟨dependent, hfind, rfl⟩ := Option.map_eq_some_iff.1 hlent
  obtain ⟨model, types, hmem, hdependent⟩ :=
    (hentries.mem_lentOf_iff hnames).1 (List.mem_of_find?_eq_some hfind)
  have hname : dependent.value.name = name := by simpa using List.find?_some hfind
  exact ⟨model, hentries.mem_models hmem,
    hname ▸ (hentries.reusable model types hmem).lends hdependent⟩

/-- What a reused model reaches has a type in the graph. -/
theorem Reuses.isSome_type? {model : ModelDecl} {types : ModelTypes}
    (hmem : (model, some types) ∈ entries) {name : String} {type : NamedType}
    (hreach : run.ReachedBy model name)
    (hget : (run.alone model).namedTypes.get? name = some type) :
    ((run.finish (run.built entries) models (reusedOf entries)).1.type? name).isSome := by
  have hname := (name_of_get? hget).1
  obtain ⟨shared, hshared, hvalue⟩ :=
    ((hentries.reusable model types hmem).dependents type).2 (hname.symm ▸ ⟨hreach, hget⟩)
  have hlent := (hentries.mem_lentOf_iff hnames).2 ⟨model, types, hmem, hshared⟩
  have hfind := List.find?_isSome
    (p := fun dependent : Shared NamedType => decide (dependent.value.name = name)) |>.2
      ⟨shared, hlent, decide_eq_true (hvalue ▸ hname)⟩
  rw [type?_finish hnames, Option.isSome_or, Option.isSome_map, hfind, Bool.or_true]

variable (hwhole : run.Fits models models) (hpart : run.Fits models (freshOf entries))

include hwhole hpart

/-- Whatever a graph has under a name that a model reaches is what the model has there alone. -/
theorem Reuses.get?_of_type? {model : ModelDecl} (hmodel : model ∈ models) {name : String}
    (hreach : run.ReachedBy model name) {type : NamedType}
    (hget : (run.finish (run.built entries) models (reusedOf entries)).1.type? name = some type) :
    (run.alone model).namedTypes.get? name = some type := by
  rcases hentries.of_type? hnames hget with hbuilt | ⟨lender, hlender, hlends, hlent⟩
  · exact hpart.other model hmodel name hreach type hbuilt
  · -- When all models are laid out together, the lender and the model find the same.
    rw [← hwhole.own model hmodel name hreach, hwhole.own lender hlender name hlends, hlent]

/-- What a model reaches stands for the same in the graph and for the model alone. -/
theorem Reuses.type?_eq {model : ModelDecl} (hmodel : model ∈ models) {name : String}
    (hreach : run.ReachedBy model name) :
    (run.finish (run.built entries) models (reusedOf entries)).1.type? name =
      (run.alone model).namedTypes.get? name := by
  refine Option.ext fun type => ⟨hentries.get?_of_type? hnames hwhole hpart hmodel hreach, fun hget => ?_⟩
  obtain ⟨found, hmem⟩ := hentries.exists_entry hmodel
  cases found with
  | none =>
    rw [type?_finish hnames, built, hpart.own model (mem_freshOf.2 hmem) name hreach, hget,
      Option.some_or]
  | some types =>
    obtain ⟨type', hget'⟩ :=
      Option.isSome_iff_exists.1 (hentries.isSome_type? hnames hmem hreach hget)
    rw [hget', ← hentries.get?_of_type? hnames hwhole hpart hmodel hreach hget', hget]

omit hwhole in
/-- Every model gets its root. -/
theorem Reuses.exists_placed {model : ModelDecl} (hmodel : model ∈ models) :
    ∃ root, placed? (run.share .root (run.built entries).roots)
        (reusedOf entries) model = some (model.rootName, root) ∧
      (run.alone model).roots.get? model.rootName = some root.value := by
  obtain ⟨found, hmem⟩ := hentries.exists_entry hmodel
  rw [placed?, get?_share, hentries.get?_reusedOf hnames hmem]
  cases found with
  | none =>
    obtain ⟨root, hroot, -⟩ := exists_root run model
    have hbuilt : (run.built entries).roots.get? model.rootName = some root :=
      (hpart.root model (mem_freshOf.2 hmem)).trans hroot
    rw [hbuilt]
    exact ⟨_, rfl, hroot⟩
  | some types =>
    rw [hentries.get?_roots_eq_none hnames hmem]
    exact ⟨types.root, rfl, (hentries.reusable model types hmem).root⟩

/-- The graph of a run stands for its models. -/
theorem Reuses.faithful :
    run.Faithful models (run.finish (run.built entries) models (reusedOf entries)).1 := by
  have hkeys : (models.filterMap (placed? (run.share .root (run.built entries).roots)
      (reusedOf entries))).map Prod.fst = models.map ModelDecl.rootName := by
    rw [List.map_filterMap, ← List.filterMap_eq_map]
    refine List.filterMap_congr fun model hmodel => ?_
    obtain ⟨root, hplaced, -⟩ := hentries.exists_placed hnames hpart hmodel
    rw [hplaced]
    rfl
  have hnodup := hkeys ▸ hnames
  refine ⟨?_, ?_, fun model hmodel => ?_,
    fun model hmodel name hreach => hentries.type?_eq hnames hwhole hpart hmodel hreach⟩
  · rw [run.finish_eq hnames]
  · rw [run.finish_eq hnames]
    exact (congrArg (List.map Prod.fst) (OrderedMap.entries_ofList hnodup)).trans hkeys
  · obtain ⟨root, hplaced, hroot⟩ := hentries.exists_placed hnames hpart hmodel
    rw [run.finish_eq hnames, hroot]
    exact congrArg (Option.map Shared.value) ((OrderedMap.get?_ofList_eq_some_iff hnodup).2
      (List.mem_filterMap.2 ⟨model, hmodel, hplaced⟩))

/-- The graph is valid when all that its models reach passes, and what is built can be. -/
theorem Reuses.validate_of_shows (hshows : ∀ model ∈ models, run.Shows models model)
    (hcompletes : run.Completes models (freshOf entries)) :
    (run.finish (run.built entries) models (reusedOf entries)).1.validate = .ok () := by
  have hfaithful := hentries.faithful hnames hwhole hpart
  refine hfaithful.validate_of_shows hshows fun type htype => ?_
  obtain ⟨name, hget⟩ := TypeGraph.mem_namedTypes_iff.1 htype
  rcases hentries.of_type? hnames hget with hbuilt | ⟨model, hmodel, hreach, hlent⟩
  · -- What was built passes as it stands, and still does beside what is lent.
    refine .inr fun field hfield => ?_
    have hpasses :=
      hcompletes.passes type (OrderedMap.mem_values_iff.2 ⟨name, hbuilt⟩) field hfield
    refine hpasses.imp (fun _ => hfaithful.isModel_iff.2) fun name _ type hfound => ?_
    rw [type?_finish hnames, built, hfound, Option.some_or]
  · exact .inl ⟨model, hmodel, .inr ⟨name, hreach, hlent⟩⟩

/-- What is built without any types to reuse passes when the graph is valid. -/
theorem Reuses.passes_of_validate (hall : freshOf entries = models)
    (hvalid : (run.finish (run.built entries) models (reusedOf entries)).1.validate = .ok ())
    {type : ObjectType} (htype : .object type ∈ (run.layOut models).settled.namedTypes.values)
    {field : OutputField} (hfield : field ∈ type.fields.values) :
    field.Passes (IsRootName models) (run.layOut models).settled.namedTypes.get? := by
  have hfaithful := hentries.faithful hnames hwhole hpart
  have hbuilt : run.built entries = (run.layOut models).settled := by rw [built, hall]
  have hlent : run.lentOf models entries = [] := by
    refine List.eq_nil_iff_forall_not_mem.2 fun dependent hmem => ?_
    obtain ⟨model, types, hreused, -⟩ := (hentries.mem_lentOf_iff hnames).1 hmem
    have hfresh : (model, none) ∈ entries := mem_freshOf.1 (hall ▸ hentries.mem_models hreused)
    cases hentries.unique hnames hreused hfresh
  have htypes : (run.finish (run.built entries) models (reusedOf entries)).1.type? =
      (run.layOut models).settled.namedTypes.get? := by
    funext name
    rw [type?_finish hnames, hlent, hbuilt]
    exact Option.or_none
  have hmem : type ∈ (run.finish (run.built entries) models (reusedOf entries)).1.objects := by
    obtain ⟨name, hget⟩ := OrderedMap.mem_values_iff.1 htype
    rw [← htypes] at hget
    exact TypeGraph.mem_objects_iff.2 (.inr (TypeGraph.mem_namedTypes_iff.2 ⟨name, hget⟩))
  have hchecked := TypeGraph.validate_eq_ok_iff.1 hvalid type hmem field hfield
  have hpasses := TypeGraph.checkField_iff_passes.1 hchecked
  rw [htypes] at hpasses
  exact hpasses.imp (fun _ => hfaithful.isModel_iff.1) fun _ _ _ hfound => hfound

/-! ### The new types -/

omit hwhole in
/-- The new types can be reused for their models. -/
theorem Reuses.reusable_freshTypes {types : ModelTypes}
    (htypes : types ∈ freshTypes (run.built entries) (run.share .root (run.built entries).roots)
      (run.share .type (run.built entries).namedTypes)) :
    ∃ model ∈ freshOf entries, types.key = model.name ∧ run.Reusable model types := by
  obtain ⟨⟨name, root⟩, hentry, rfl⟩ := List.mem_map.1 htypes
  have hget : (run.share .root (run.built entries).roots).get? name = some root :=
    OrderedMap.get?_eq_some_iff.2 hentry
  rw [get?_share] at hget
  obtain ⟨object, hobject, rfl⟩ := Option.map_eq_some_iff.1 hget
  obtain ⟨model, hmodel, rfl⟩ : ∃ model ∈ freshOf entries, model.rootName = name := by
    have hmem := OrderedMap.mem_keys_of_get? hobject
    rw [built, (Arena.settled_frame _).1, (run.holds _).roots, owners_kept] at hmem
    exact List.mem_map.1 hmem
  have hroot := (hpart.root model hmodel).symm.trans hobject
  -- Below its root a fresh model finds in the common arena what it finds in one of its own.
  refine ⟨model, hmodel, ?_,
    reusable_of_agrees hroot (fun name hreach => hpart.own model hmodel name hreach) _⟩
  have hnodup : ((freshOf entries).map ModelDecl.rootName).Nodup :=
    hnames.sublist (hentries.sublist_freshOf.map ModelDecl.rootName)
  have hname : (run.built entries).rootModels.get? model.rootName = some model.name := by
    rw [built, Arena.settled, Arena.rootModels_settleAll, rootModels_layOut,
      OrderedMap.get?_ofList_eq_some_iff (by rwa [List.map_map])]
    exact List.mem_map_of_mem hmodel
  exact congrArg (Option.getD · _) hname

/-! ### When a run succeeds -/

omit hnames hwhole hpart in
/-- A run succeeds when the models to build can be resolved. -/
theorem Reuses.assemble_eq_ok_iff {result : TypeGraph × List ModelTypes} :
    run.assemble entries = .ok result ↔ run.Resolves models (freshOf entries) ∧
      run.finish (run.built entries) models (reusedOf entries) = result := by
  have hassemble : run.assemble entries =
      ((run.layOut (freshOf entries)).resolve (modelTypeNames models) >>= fun arena =>
        arena.checkResolved >>= fun _ =>
          pure (run.finish arena models (reusedOf entries))) := by
    rw [← hentries.models]
    rfl
  rw [hassemble]
  simp only [bind_eq_ok_iff, Arena.resolve_eq_ok_iff]
  constructor
  · rintro ⟨_, ⟨htargets, rfl⟩, _, hcheck, hresult⟩
    exact ⟨⟨htargets, hcheck⟩, Except.ok.inj hresult⟩
  · rintro ⟨⟨htargets, hcheck⟩, hresult⟩
    exact ⟨_, ⟨htargets, rfl⟩, (), hcheck, congrArg Except.ok hresult⟩

/-- The graph of a run stands for its models, and the new types can be reused. -/
theorem Reuses.of_assemble {graph : TypeGraph} {fresh : List ModelTypes}
    (hok : run.assemble entries = .ok (graph, fresh)) :
    run.Faithful models graph ∧ run.Resolves models (freshOf entries) ∧
      ∀ types ∈ fresh, ∃ model ∈ freshOf entries, types.key = model.name ∧
        run.Reusable model types := by
  obtain ⟨hresolves, hresult⟩ := hentries.assemble_eq_ok_iff.1 hok
  have hgraph := congrArg Prod.fst hresult
  have hfresh := congrArg Prod.snd hresult
  dsimp only at hgraph hfresh
  rw [← hgraph]
  refine ⟨hentries.faithful hnames hwhole hpart, hresolves, fun types htypes => ?_⟩
  rw [← hfresh, run.finish_eq hnames] at htypes
  exact hentries.reusable_freshTypes hnames hpart htypes

end Reuses

end Run

end ModelGraph
