import Mathlib.Data.List.Forall2
import ModelGraph.Proofs.Graph.Mark

/-!
# Fields that are left out

Hidden and reserved fields are left out of the output types wherever they stand, and a root-level
field of the identity field's name only feeds the identity field. Here a model is stripped of all
of these. Laying out the stripped model does the same to every table of the arena as laying out the
model, so nothing of such a field is left in any of them.

## Main definitions

- `FieldDecl.visibleAll` — declared fields without those left out, at every depth
- `ModelDecl.visible` — a model with its visible fields only
- `ModelDecl.SameVisible` — models that differ only in what is left out

## Main statements

- `Arena.fields_visibleAll` — stripped fields are laid out like the declared ones
- `Arena.addModel_congr` — models that differ only in what is left out are laid out alike
- `Run.synthesize_of_sameVisible` — lists of such models have the same graph or the same error
-/

namespace ModelGraph

namespace FieldDecl

variable (settings : SynthSettings)

mutual

/-- Declared fields without those left out, at every depth. -/
def visibleAll : List FieldDecl → List FieldDecl
  | [] => []
  | decl :: rest => (visible? decl).toList ++ visibleAll rest

/-- A declared field with the visible fields of its shape, unless it is left out itself. -/
def visible? : FieldDecl → Option FieldDecl
  | ⟨name, shape, nonNull, hidden, description, hooks⟩ =>
    if Arena.isExcluded settings name hidden then none
    else some ⟨name, visibleShape shape, nonNull, hidden, description, hooks⟩

/-- The shape of a field with its visible fields. -/
def visibleShape : FieldShape FieldDecl → FieldShape FieldDecl
  | .scalar kind values => .scalar kind values
  | .list element => .list (visibleElement element)
  | .nested decls => .nested (visibleAll decls)
  | .embedded model decls => .embedded model (visibleAll decls)
  | .reference target cardinality => .reference target cardinality

/-- The shape of a list's elements with its visible fields. -/
def visibleElement : ElementShape FieldDecl → ElementShape FieldDecl
  | .scalar kind values => .scalar kind values
  | .nested decls => .nested (visibleAll decls)
  | .embedded model decls => .embedded model (visibleAll decls)

end

end FieldDecl

namespace ModelDecl

/-- A model with its visible fields only. -/
def visible (settings : SynthSettings) (model : ModelDecl) : ModelDecl :=
  { model with
    fields := FieldDecl.visibleAll settings
      (model.fields.filter fun decl => !Arena.isIdentityDecl decl) }

/-- Models that differ only in what is left out: they are the same once stripped, and both or none
of them declare the field that the identity is read from. -/
def SameVisible (settings : SynthSettings) (model other : ModelDecl) : Prop :=
  model.visible settings = other.visible settings ∧
    (model.field? settings.identityField).isSome = (other.field? settings.identityField).isSome

end ModelDecl

namespace Arena

open FieldDecl

variable (settings : SynthSettings) (owner : String)

mutual

/-- Stripped fields are laid out like the declared ones. -/
theorem fields_visibleAll (typeName path : String) :
    (decls : List FieldDecl) → (done : OrderedMap String OutputField) →
      fields settings owner typeName path (visibleAll settings decls) done =
        fields settings owner typeName path decls done
  | [], _ => rfl
  | decl :: rest, done => by
    have hfield := field_visible? typeName path decl
    have hrest := fields_visibleAll typeName path rest
    rw [visibleAll]
    cases hvisible : visible? settings decl with
    | none =>
      rw [hvisible] at hfield
      rw [Option.toList_none, List.nil_append, fields, ← hfield, pure_bind, hrest]
    | some stripped =>
      have hfield : field settings owner typeName path stripped =
          field settings owner typeName path decl := by simpa only [hvisible] using hfield
      rw [Option.toList_some, List.singleton_append, fields, fields, hfield]
      refine bind_congr fun output => ?_
      cases output with
      | none => exact hrest done
      | some output => exact hrest (done.insert output.name output)

/-- A stripped field is laid out like the declared one, and a field left out as nothing. -/
theorem field_visible? (typeName path : String) : (decl : FieldDecl) →
    (match visible? settings decl with
      | some stripped => field settings owner typeName path stripped
      | none => pure none) = field settings owner typeName path decl
  | ⟨name, shape, nonNull, isHidden, description, hooks⟩ => by
    have hshape := shapeType_visibleShape typeName (Path.child path name) name nonNull shape
    rw [visible?, field]
    by_cases h : isExcluded settings name isHidden
    · rw [if_pos h, if_pos h]
    · rw [if_neg h, if_neg h]
      simp only [field, if_neg h, hshape]

theorem shapeType_visibleShape (typeName path source : String) (nonNull : Bool) :
    (shape : FieldShape FieldDecl) →
      shapeType settings owner typeName path source nonNull (visibleShape settings shape) =
        shapeType settings owner typeName path source nonNull shape
  | .scalar _ _ => rfl
  | .list element => by
    rw [visibleShape, shapeType, shapeType, elementType_visibleElement typeName path source element]
  | .nested decls => by
    rw [visibleShape, shapeType, shapeType]
    simp only [fields_visibleAll (Naming.nestedType typeName source) path decls]
  | .embedded model decls => by
    rw [visibleShape, shapeType, shapeType]
    simp only [fields_visibleAll (Naming.embeddedType model) path decls]
  | .reference _ _ => rfl

theorem elementType_visibleElement (typeName path source : String) :
    (element : ElementShape FieldDecl) →
      elementType settings owner typeName path source (visibleElement settings element) =
        elementType settings owner typeName path source element
  | .scalar _ _ => rfl
  | .nested decls => by
    rw [visibleElement, elementType, elementType]
    simp only [fields_visibleAll (Naming.nestedType typeName source) path decls]
  | .embedded model decls => by
    rw [visibleElement, elementType, elementType]
    simp only [fields_visibleAll (Naming.embeddedType model) path decls]

end

/-- Models that differ only in what is left out are laid out alike. -/
theorem addModel_congr {settings : SynthSettings} {model other : ModelDecl}
    (h : model.SameVisible settings other) (identity : Identity) :
    addModel settings identity model = addModel settings identity other := by
  obtain ⟨hvisible, hidentity⟩ := h
  have hname : model.name = other.name := (ModelDecl.mk.inj hvisible).2.1
  have hdescription : model.description = other.description :=
    (ModelDecl.mk.inj hvisible).2.2.2.1
  have hhooks : model.hooks = other.hooks := (ModelDecl.mk.inj hvisible).2.2.2.2.2
  have hfields : visibleAll settings (model.fields.filter fun decl => !isIdentityDecl decl) =
      visibleAll settings (other.fields.filter fun decl => !isIdentityDecl decl) :=
    congrArg ModelDecl.fields hvisible
  have hdeclared : ∀ owner typeName path,
      fields settings owner typeName path (model.fields.filter fun decl => !isIdentityDecl decl) ∅ =
        fields settings owner typeName path
          (other.fields.filter fun decl => !isIdentityDecl decl) ∅ := by
    intro owner typeName path
    rw [← fields_visibleAll, hfields, fields_visibleAll]
  simp only [addModel, identitySource, hname, hdescription, hhooks, hidentity, hdeclared]

end Arena

/-! ## Synthesis -/

section Synthesis

variable {settings : SynthSettings} {models others : List ModelDecl}

theorem ModelDecl.SameVisible.key_eq {model other : ModelDecl}
    (h : model.SameVisible settings other) : model.key = other.key :=
  (ModelDecl.mk.inj h.1).1

theorem ModelDecl.SameVisible.name_eq {model other : ModelDecl}
    (h : model.SameVisible settings other) : model.name = other.name :=
  (ModelDecl.mk.inj h.1).2.1

theorem checkKeys_congr (h : List.Forall₂ (ModelDecl.SameVisible settings) models others)
    (seen : List String) : checkKeys seen models = checkKeys seen others := by
  induction h generalizing seen with
  | nil => rfl
  | cons hsame _ ih =>
    rw [checkKeys, checkKeys, hsame.key_eq]
    split
    · rfl
    · exact ih _

theorem modelTypeNames_congr
    (h : List.Forall₂ (ModelDecl.SameVisible settings) models others) :
    modelTypeNames models = modelTypeNames others := by
  have hnames : models.map (fun model => (model.name, Naming.sanitize model.name)) =
      others.map fun model => (model.name, Naming.sanitize model.name) := by
    induction h with
    | nil => rfl
    | cons hsame _ ih => rw [List.map_cons, List.map_cons, hsame.name_eq, ih]
  rw [modelTypeNames, hnames, modelTypeNames]

namespace Run

theorem layOut_congr (run : Run)
    (h : List.Forall₂ (ModelDecl.SameVisible run.settings) models others) :
    run.layOut models = run.layOut others := by
  have hforM : models.forM (Arena.addModel run.settings run.identity) =
      others.forM (Arena.addModel run.settings run.identity) := by
    induction h with
    | nil => rfl
    | cons hsame _ ih =>
      change (Arena.addModel _ _ _ >>= fun _ => List.forM _ _) =
        (Arena.addModel _ _ _ >>= fun _ => List.forM _ _)
      rw [Arena.addModel_congr hsame, ih]
  rw [layOut, hforM, layOut]

theorem graphOf_congr (run : Run)
    (h : List.Forall₂ (ModelDecl.SameVisible settings) models others) (arena : Arena) :
    run.graphOf models arena = run.graphOf others arena := by
  have hfold : ∀ state, models.foldl (place ∅) state = others.foldl (place ∅) state := by
    induction h with
    | nil => exact fun _ => rfl
    | cons hsame _ ih =>
      intro state
      rw [List.foldl_cons, List.foldl_cons, ih, place, place, hsame.name_eq]
  simp only [graphOf, finish, hfold]

/-- Lists of models that differ only in what is left out have the same graph or the same error,
but for the mark of the run. -/
theorem synthesize_of_sameVisible (run other : Run) (hsettings : other.settings = run.settings)
    (h : List.Forall₂ (ModelDecl.SameVisible run.settings) models others) :
    run.synthesize others = run.synthesize models ∧
      other.synthesize others = (run.synthesize models).map (TypeGraph.markedBy other) := by
  have hsame : run.synthesize others = run.synthesize models := by
    rw [synthesize_eq, synthesize_eq, checkKeys_congr h, layOut_congr run h,
      modelTypeNames_congr h]
    simp only [graphOf_congr run h]
  exact ⟨hsame, by rw [synthesize_eq_markedBy run other hsettings, hsame]⟩

end Run

end Synthesis

namespace ModelDecl

/-- A model with a nested shape. -/
def tidyUser : ModelDecl where
  key := "users"
  name := "User"
  fields := [.scalar "id" .string, .scalar "name" .string,
    .nested "address" [.scalar "city" .string, .references "visitors" "User"]]

/-- The same model with fields that are left out: at the root, below it, and around an embedded
model; its `id` is another one too. -/
def clutteredUser : ModelDecl where
  key := "users"
  name := "User"
  fields := [(FieldDecl.embedded "vault" "Vault" [.scalar "key" .string]).asHidden,
    .references "id" "Ghost", .scalar "name" .string,
    .nested "address" [.scalar "__v" .number, .scalar "city" .string,
      (FieldDecl.reference "owner" "Ghost").asHidden, .references "visitors" "User"]]

end ModelDecl

theorem Run.synthesize_clutteredUser :
    List.Forall₂ (ModelDecl.SameVisible {}) [.tidyUser] [.clutteredUser] ∧
      (Run.mk {} ⟨1⟩ 1).synthesize [.clutteredUser] =
        ((Run.mk {} ⟨0⟩ 0).synthesize [.tidyUser]).map (TypeGraph.markedBy (Run.mk {} ⟨1⟩ 1)) := by
  have hsame : List.Forall₂ (ModelDecl.SameVisible {}) [.tidyUser] [.clutteredUser] := by
    refine .cons ⟨?_, ?_⟩ .nil
    · rfl
    · decide
  exact ⟨hsame, (synthesize_of_sameVisible (Run.mk {} ⟨0⟩ 0) (Run.mk {} ⟨1⟩ 1) rfl hsame).2⟩

end ModelGraph
