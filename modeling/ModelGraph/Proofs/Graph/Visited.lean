import ModelGraph.Proofs.Graph.Placed
import ModelGraph.Proofs.Graph.References
import ModelGraph.Proofs.Graph.Tables

/-!
# Shapes that are visited, and fields that are dropped

Laying out visits the nested and embedded shapes of visible fields, each before the type that it is
part of is finished. Of an embedded model only the first occurrence is visited; wherever the model
occurs again, its fields are those of this first one.

A field is dropped when it is excluded, or when all fields of its shape are dropped. A model may
contain itself, so this is meant as a least relation: a field is only dropped for a reason that ends
at excluded fields.

## Main definitions

- `FieldDecl.visitAll`, `Run.visited` — the shapes that are visited
- `FieldDecl.Dropped` — a field that is excluded or hollow
- `KeptField.Picks` — kept fields that are picked from declared ones, and the others are dropped
- `VisitedShape.KeptAs`, `Covers` — visited shapes and the object types that are kept of them

## Main statements

- `FieldDecl.not_dropped_iff` — which fields are not dropped
- `KeptField.sifts_keepAll` — keeping declared fields leaves out dropped ones only
-/

namespace ModelGraph

/-! ### Visited shapes -/

/-- A shape that is visited: the name of the type that it asks for, the model that it is embedded
from, if it is, and its declared fields. -/
structure VisitedShape where
  object : String
  model? : Option String
  fields : List FieldDecl

namespace FieldDecl

variable (settings : SynthSettings)

mutual

/-- The shapes that are visited for declared fields of the type `typeName`, in the order in which
their types are finished. The state lists the embedded models met so far. -/
def visitAll (typeName : String) : List FieldDecl → StateM (List String) (List VisitedShape)
  | [] => pure []
  | decl :: rest => do
    let first ← visit typeName decl
    let others ← visitAll typeName rest
    pure (first ++ others)

/-- The shapes that are visited for a field. -/
def visit (typeName : String) : FieldDecl → StateM (List String) (List VisitedShape)
  | ⟨name, content, _, isHidden, _, _⟩ =>
    if Arena.isExcluded settings name isHidden then pure []
    else visitShape typeName name content

/-- The shapes that are visited for a field of the given name and shape. -/
def visitShape (typeName name : String) :
    FieldShape FieldDecl → StateM (List String) (List VisitedShape)
  | .scalar _ _ => pure []
  | .list element => visitElement typeName name element
  | .nested decls => do
    let below ← visitAll (Naming.nestedType typeName name) decls
    pure (below ++ [⟨Naming.nestedType typeName name, none, decls⟩])
  | .embedded model decls => do
    if ← announce model then
      let below ← visitAll (Naming.embeddedType model) decls
      pure (below ++ [⟨Naming.embeddedType model, some model, decls⟩])
    else pure []
  | .reference _ _ => pure []

/-- The shapes that are visited for a field of the given name that lists elements. -/
def visitElement (typeName name : String) :
    ElementShape FieldDecl → StateM (List String) (List VisitedShape)
  | .scalar _ _ => pure []
  | .nested decls => do
    let below ← visitAll (Naming.nestedType typeName name) decls
    pure (below ++ [⟨Naming.nestedType typeName name, none, decls⟩])
  | .embedded model decls => do
    if ← announce model then
      let below ← visitAll (Naming.embeddedType model) decls
      pure (below ++ [⟨Naming.embeddedType model, some model, decls⟩])
    else pure []

end

end FieldDecl

/-- The shapes that are visited for a model. -/
def ModelDecl.visit (settings : SynthSettings) (model : ModelDecl) :
    StateM (List String) (List VisitedShape) :=
  FieldDecl.visitAll settings (Naming.sanitize model.name) model.ownFields

namespace Run

variable (run : Run) (models : List ModelDecl)

/-- The shapes that are visited for the models of a run. -/
def visited : List VisitedShape :=
  ((models.mapM (ModelDecl.visit run.settings)).run []).1.flatten

/-- The embedded models of a run, in the order in which their first occurrences are finished. -/
def embeddedModels : List String := (run.visited models).filterMap VisitedShape.model?

/-- The fields of the first occurrence of an embedded model in a run. -/
def firstFields (model : String) : Option (List FieldDecl) :=
  ((run.visited models).find? fun shape => shape.model? = some model).map VisitedShape.fields

end Run

/-! ### Dropped fields -/

/-- The model that the values of a shape are embedded from. -/
def FieldShape.model? : FieldShape FieldDecl → Option String
  | .embedded model _ | .list (.embedded model _) => some model
  | .scalar _ _ | .list (.scalar _ _) | .list (.nested _) | .nested _ | .reference _ _ => none

/-- The fields that a shape is made of, if it is made of fields. Those of an embedded model are the
ones of its first occurrence. -/
def FieldShape.contents (first : String → Option (List FieldDecl)) :
    FieldShape FieldDecl → Option (List FieldDecl)
  | .nested decls | .list (.nested decls) => some decls
  | .embedded model _ | .list (.embedded model _) => first model
  | .scalar _ _ | .list (.scalar _ _) | .reference _ _ => none

namespace FieldDecl

variable (settings : SynthSettings) (first : String → Option (List FieldDecl))

/-- Whether a field is left out: it is excluded, or it is made of fields that are all left out. -/
inductive Dropped : FieldDecl → Prop
  | excluded {decl : FieldDecl} :
      Arena.isExcluded settings decl.name decl.hidden = true → Dropped decl
  | hollow {decl : FieldDecl} {fields : List FieldDecl} :
      decl.shape.contents first = some fields → (∀ inner ∈ fields, Dropped inner) → Dropped decl

/-- A field is not left out when it is not excluded and, if it is made of fields, one of them is not
left out. -/
theorem not_dropped_iff {decl : FieldDecl} : ¬ Dropped settings first decl ↔
    Arena.isExcluded settings decl.name decl.hidden = false ∧
      ∀ fields, decl.shape.contents first = some fields →
        ∃ inner ∈ fields, ¬ Dropped settings first inner := by
  constructor
  · intro h
    refine ⟨Bool.eq_false_iff.2 fun hexcluded => h (.excluded hexcluded), fun fields hfields => ?_⟩
    by_contra hnone
    exact h (.hollow hfields fun inner hinner =>
      not_not.1 fun hnot => hnone ⟨inner, hinner, hnot⟩)
  · rintro ⟨hvisible, hcontents⟩ hdropped
    cases hdropped with
    | excluded hexcluded =>
      rw [hvisible] at hexcluded
      cases hexcluded
    | hollow hfields hall =>
      obtain ⟨inner, hinner, hnot⟩ := hcontents _ hfields
      exact hnot (hall inner hinner)

end FieldDecl

/-! ### Picking fields -/

namespace KeptField

variable (settings : SynthSettings) (first : String → Option (List FieldDecl))

mutual

/-- Whether a kept field is one of a declared field: a plain one, one of an embedded type that is
laid out elsewhere, or one of a shape with some of its fields. -/
inductive Of : FieldDecl → KeptField → Prop
  | plain {decl : FieldDecl} {kept : KeptField} : decl.shape.contents first = none →
      shapes kept = [] → Of decl kept
  | known {decl : FieldDecl} {model : String} {head : FieldHead} {inList : Bool} :
      decl.shape.model? = some model →
      Of decl (.value head (.listIf inList (.object (Naming.embeddedType model))) [])
  | shape {decl : FieldDecl} {fields : List FieldDecl} {inner : List KeptField} {head : FieldHead}
      {inList embedded : Bool} {object : String} : decl.shape.contents first = some fields →
      (embedded = true → ∃ model, decl.shape.model? = some model ∧
        object = Naming.embeddedType model) →
      Picks fields inner → inner ≠ [] → Of decl (.shape head inList object embedded inner)

/-- Whether kept fields are picked from declared ones, in order, and all others are dropped. -/
inductive Picks : List FieldDecl → List KeptField → Prop
  | nil : Picks [] []
  | drop {decl : FieldDecl} {rest : List FieldDecl} {kept : List KeptField} :
      FieldDecl.Dropped settings first decl → Picks rest kept → Picks (decl :: rest) kept
  | keep {decl : FieldDecl} {rest : List FieldDecl} {field : KeptField} {kept : List KeptField} :
      Arena.isExcluded settings decl.name decl.hidden = false → field.head = decl.head →
      Of decl field → Picks rest kept → Picks (decl :: rest) (field :: kept)

end

section Picks

variable {settings : SynthSettings} {first : String → Option (List FieldDecl)}

theorem Picks.append {decls others : List FieldDecl} {kept more : List KeptField}
    (h : Picks settings first decls kept) (h' : Picks settings first others more) :
    Picks settings first (decls ++ others) (kept ++ more) := by
  induction decls generalizing kept with
  | nil =>
    cases h
    exact h'
  | cons decl rest ih =>
    cases h with
    | drop hdropped hrest => exact .drop hdropped (ih hrest)
    | keep hvisible hhead hof hrest => exact .keep hvisible hhead hof (ih hrest)

/-- When nothing is picked, everything is dropped. -/
theorem Picks.dropped {decls : List FieldDecl} (h : Picks settings first decls []) :
    ∀ decl ∈ decls, FieldDecl.Dropped settings first decl := by
  induction decls with
  | nil => exact fun _ hdecl => absurd hdecl List.not_mem_nil
  | cons decl rest ih =>
    cases h with
    | drop hdropped hrest => exact List.forall_mem_cons.2 ⟨hdropped, ih hrest⟩

/-- What is picked is picked from a visible field. -/
theorem Picks.exists_of {decls : List FieldDecl} {kept : List KeptField} {field : KeptField}
    (h : Picks settings first decls kept) (hfield : field ∈ kept) :
    ∃ decl ∈ decls, Arena.isExcluded settings decl.name decl.hidden = false ∧
      Of settings first decl field := by
  induction decls generalizing kept with
  | nil =>
    cases h
    cases hfield
  | cons decl rest ih =>
    cases h with
    | drop hdropped hrest =>
      obtain ⟨found, hfound, hof⟩ := ih hrest hfield
      exact ⟨found, List.mem_cons_of_mem _ hfound, hof⟩
    | keep hvisible hhead hof hrest =>
      rcases List.mem_cons.1 hfield with rfl | hfield
      · exact ⟨decl, List.mem_cons_self .., hvisible, hof⟩
      · obtain ⟨found, hfound, hof⟩ := ih hrest hfield
        exact ⟨found, List.mem_cons_of_mem _ hfound, hof⟩

theorem shapesAll_append (kept others : List KeptField) :
    shapesAll (kept ++ others) = shapesAll kept ++ shapesAll others := by
  induction kept with
  | nil => rfl
  | cons first rest ih => rw [List.cons_append, shapesAll, shapesAll, ih, List.append_assoc]

theorem shapesAll_singleton (kept : KeptField) : shapesAll [kept] = shapes kept := by
  rw [shapesAll, shapesAll, List.append_nil]

end Picks

end KeptField

/-! ### Visited shapes that are kept -/

section Covers

variable (settings : SynthSettings) (first : String → Option (List FieldDecl))

/-- A visited shape that is kept as an object type, with some of its fields. -/
structure VisitedShape.KeptAs (shape : VisitedShape) (kept : KeptShape) : Prop where
  object : kept.object = shape.object
  embedded : kept.embedded = shape.model?.isSome
  picks : KeptField.Picks settings first shape.fields kept.fields
  nonempty : kept.fields ≠ []

/-- Visited shapes are kept as object types or have dropped fields only, and no others are kept. -/
structure Covers (visited : List VisitedShape) (kept : List KeptShape) : Prop where
  covered : ∀ shape ∈ visited, (∀ decl ∈ shape.fields, FieldDecl.Dropped settings first decl) ∨
    ∃ found ∈ kept, shape.KeptAs settings first found
  only : ∀ found ∈ kept, ∃ shape ∈ visited, shape.KeptAs settings first found

/-- What is remembered of embedded models is right: their first occurrences are known, and the ones
that kept no field have dropped fields only. -/
structure Seen.Sound (seen : Seen) : Prop where
  met : ∀ model ∈ seen.embedded, (first model).isSome
  hollow : ∀ name ∈ seen.hollow, ∃ model fields, first model = some fields ∧
    Naming.embeddedType model = name ∧ ∀ decl ∈ fields, FieldDecl.Dropped settings first decl

/-- Fields are picked from declared ones, their object types are those of the shapes that are
visited on the way, and what is remembered afterwards is right. -/
structure Sifts (decls : List FieldDecl) (visited : List VisitedShape × List String)
    (kept : List KeptField) (after : Seen) : Prop where
  picks : KeptField.Picks settings first decls kept
  met : visited.2 = after.embedded
  covers : Covers settings first visited.1 (KeptField.shapesAll kept)
  sound : after.Sound settings first

variable {settings first}

theorem Covers.nil : Covers settings first [] [] where
  covered _ h := absurd h List.not_mem_nil
  only _ h := absurd h List.not_mem_nil

theorem Covers.append {visited more : List VisitedShape} {kept others : List KeptShape}
    (h : Covers settings first visited kept) (h' : Covers settings first more others) :
    Covers settings first (visited ++ more) (kept ++ others) where
  covered shape hshape := by
    rcases List.mem_append.1 hshape with hshape | hshape
    · exact (h.covered shape hshape).imp_right fun ⟨found, hfound, hkept⟩ =>
        ⟨found, List.mem_append_left _ hfound, hkept⟩
    · exact (h'.covered shape hshape).imp_right fun ⟨found, hfound, hkept⟩ =>
        ⟨found, List.mem_append_right _ hfound, hkept⟩
  only found hfound := by
    rcases List.mem_append.1 hfound with hfound | hfound
    · obtain ⟨shape, hshape, hkept⟩ := h.only found hfound
      exact ⟨shape, List.mem_append_left _ hshape, hkept⟩
    · obtain ⟨shape, hshape, hkept⟩ := h'.only found hfound
      exact ⟨shape, List.mem_append_right _ hshape, hkept⟩

theorem covers_dropped {shape : VisitedShape}
    (h : ∀ decl ∈ shape.fields, FieldDecl.Dropped settings first decl) :
    Covers settings first [shape] [] where
  covered _ hfound := .inl (List.mem_singleton.1 hfound ▸ h)
  only _ h := absurd h List.not_mem_nil

theorem VisitedShape.KeptAs.covers {shape : VisitedShape} {kept : KeptShape}
    (h : shape.KeptAs settings first kept) : Covers settings first [shape] [kept] where
  covered _ hfound := .inr ⟨kept, List.mem_singleton_self _, List.mem_singleton.1 hfound ▸ h⟩
  only _ hfound := ⟨shape, List.mem_singleton_self _, List.mem_singleton.1 hfound ▸ h⟩

end Covers

/-! ### Sifting fields -/

section Sifts

open KeptField

variable {settings : SynthSettings} {first : String → Option (List FieldDecl)}

theorem Sifts.nil {seen : Seen} (h : seen.Sound settings first) :
    Sifts settings first [] ([], seen.embedded) [] seen :=
  ⟨.nil, rfl, .nil, h⟩

theorem sifts_plain {decl : FieldDecl} {kept : KeptField} {seen : Seen}
    (h : seen.Sound settings first)
    (hvisible : Arena.isExcluded settings decl.name decl.hidden = false)
    (hhead : kept.head = decl.head) (hof : Of settings first decl kept)
    (hshapes : shapes kept = []) :
    Sifts settings first [decl] ([], seen.embedded) [kept] seen where
  picks := .keep hvisible hhead hof .nil
  met := rfl
  covers := by
    rw [shapesAll_singleton, hshapes]
    exact .nil
  sound := h

theorem sifts_dropped {decl : FieldDecl} {seen : Seen} (h : seen.Sound settings first)
    (hdropped : FieldDecl.Dropped settings first decl) :
    Sifts settings first [decl] ([], seen.embedded) [] seen :=
  ⟨.drop hdropped .nil, rfl, .nil, h⟩

theorem Sifts.append {decls others : List FieldDecl}
    {visited more : List VisitedShape × List String} {kept rest : List KeptField}
    {middle after : Seen}
    (h : Sifts settings first decls visited kept middle)
    (h' : Sifts settings first others more rest after) :
    Sifts settings first (decls ++ others) (visited.1 ++ more.1, more.2) (kept ++ rest) after where
  picks := h.picks.append h'.picks
  met := h'.met
  covers := by
    rw [shapesAll_append]
    exact h.covers.append h'.covers
  sound := h'.sound

section Shape

variable {decl : FieldDecl} {decls : List FieldDecl} {visited : List VisitedShape × List String}
  {kept : List KeptField} {after : Seen}

/-- A shape that keeps fields is an object type. -/
theorem Sifts.shape (h : Sifts settings first decls visited kept after) (hkept : kept ≠ [])
    (hvisible : Arena.isExcluded settings decl.name decl.hidden = false)
    (hcontents : decl.shape.contents first = some decls) (inList : Bool) (object : String)
    {model? : Option String} (hmodel : ∀ model, model? = some model →
      decl.shape.model? = some model ∧ object = Naming.embeddedType model) :
    Sifts settings first [decl] (visited.1 ++ [⟨object, model?, decls⟩], visited.2)
      [.shape decl.head inList object model?.isSome kept] after where
  picks := by
    refine .keep hvisible rfl (.shape hcontents (fun hsome => ?_) h.picks hkept) .nil
    obtain ⟨model, heq⟩ := Option.isSome_iff_exists.1 hsome
    exact ⟨model, hmodel model heq⟩
  met := h.met
  covers := by
    rw [shapesAll_singleton, shapes]
    have hshape : VisitedShape.KeptAs settings first ⟨object, model?, decls⟩
        ⟨object, model?.isSome, kept⟩ := ⟨rfl, rfl, h.picks, hkept⟩
    exact h.covers.append hshape.covers
  sound := h.sound

/-- A shape that keeps no field is dropped with its field. -/
theorem Sifts.hollow (h : Sifts settings first decls visited [] after)
    (hcontents : decl.shape.contents first = some decls) (object : String)
    (model? : Option String) :
    Sifts settings first [decl] (visited.1 ++ [⟨object, model?, decls⟩], visited.2) [] after where
  picks := .drop (.hollow hcontents h.picks.dropped) .nil
  met := h.met
  covers := by
    have hshape : Covers settings first [⟨object, model?, decls⟩] [] :=
      covers_dropped h.picks.dropped
    exact h.covers.append hshape
  sound := h.sound

theorem Sifts.nested (h : Sifts settings first decls visited kept after)
    (hvisible : Arena.isExcluded settings decl.name decl.hidden = false)
    (hcontents : decl.shape.contents first = some decls) (inList : Bool) (object : String) :
    Sifts settings first [decl] (visited.1 ++ [⟨object, none, decls⟩], visited.2)
      (ofNested decl.head inList object kept).toList after := by
  cases kept with
  | nil => exact h.hollow hcontents object none
  | cons field rest =>
    exact h.shape (List.cons_ne_nil _ _) hvisible hcontents inList object fun _ hnone => by
      cases hnone

/-- The first occurrence of an embedded model is an object type, or is remembered as hollow. -/
theorem Sifts.embedded (h : Sifts settings first decls visited kept after)
    (hvisible : Arena.isExcluded settings decl.name decl.hidden = false) {model : String}
    (hmodel : decl.shape.model? = some model) (hcontents : decl.shape.contents first = some decls)
    (hfirst : first model = some decls) (inList : Bool) :
    let found := (ofEmbedded decl.head inList (Naming.embeddedType model) kept).run after
    Sifts settings first [decl]
      (visited.1 ++ [⟨Naming.embeddedType model, some model, decls⟩], visited.2)
      found.1.toList found.2 := by
  cases kept with
  | nil =>
    have hhollow := h.hollow hcontents (Naming.embeddedType model) (some model)
    refine { hhollow with sound := ⟨h.sound.met, fun name hname => ?_⟩ }
    rcases List.mem_cons.1 hname with rfl | hname
    · exact ⟨model, decls, hfirst, rfl, h.picks.dropped⟩
    · exact h.sound.hollow name hname
  | cons field rest =>
    refine h.shape (List.cons_ne_nil _ _) hvisible hcontents inList (Naming.embeddedType model)
      fun other hother => ?_
    obtain rfl := Option.some.inj hother
    exact ⟨hmodel, rfl⟩

end Shape

end Sifts

namespace KeptField

open FieldDecl (visitAll visit visitShape visitElement announce run_announce)

section Keep

variable {settings : SynthSettings} {first : String → Option (List FieldDecl)}

/-- Whether embedded models of visited shapes have these as their first occurrences. -/
def FirstOf (first : String → Option (List FieldDecl)) (visited : List VisitedShape) : Prop :=
  ∀ shape ∈ visited, ∀ model, shape.model? = some model → first model = some shape.fields

theorem FirstOf.append {visited more : List VisitedShape} (h : FirstOf first (visited ++ more)) :
    FirstOf first visited ∧ FirstOf first more :=
  ⟨fun shape hshape => h shape (List.mem_append_left _ hshape),
    fun shape hshape => h shape (List.mem_append_right _ hshape)⟩

/-- What sifting declared fields from any sound state gives. -/
def SiftsFrom (settings : SynthSettings) (first : String → Option (List FieldDecl))
    (decls : List FieldDecl) (visit : StateM (List String) (List VisitedShape))
    (keep : StateM Seen (List KeptField)) : Prop :=
  ∀ seen : Seen, seen.Sound settings first → FirstOf first (visit.run seen.embedded).1 →
    Sifts settings first decls (visit.run seen.embedded) (keep.run seen).1 (keep.run seen).2

/-- Whether different embedded models with first occurrences ask for different types. -/
def NamedApart (first : String → Option (List FieldDecl)) : Prop :=
  ∀ model other, (first model).isSome → (first other).isSome →
    Naming.embeddedType model = Naming.embeddedType other → model = other

/-- An embedded shape is visited where its model is met first. Elsewhere it is dropped when that
occurrence is. -/
theorem siftsFrom_embedded (hapart : NamedApart first) {decl : FieldDecl}
    (hvisible : Arena.isExcluded settings decl.name decl.hidden = false) {model : String}
    (hmodel : decl.shape.model? = some model) (hcontents : decl.shape.contents first = first model)
    {decls : List FieldDecl} (inList : Bool)
    (h : SiftsFrom settings first decls (visitAll settings (Naming.embeddedType model) decls)
      (keepAll settings (Naming.embeddedType model) decls)) :
    SiftsFrom settings first [decl] (do
        if ← announce model then
          let below ← visitAll settings (Naming.embeddedType model) decls
          pure (below ++ [⟨Naming.embeddedType model, some model, decls⟩])
        else pure [])
      (do
        let kept ← (do
          match ← meet model with
          | some known => pure (known.map fun type => value decl.head (.listIf inList type) [])
          | none =>
            let kept ← keepAll settings (Naming.embeddedType model) decls
            ofEmbedded decl.head inList (Naming.embeddedType model) kept)
        pure kept.toList) := by
  intro seen hseen hfirst
  have hmeet := run_meet model seen
  have hannounce := run_announce model seen.embedded
  by_cases hmet : model ∈ seen.embedded
  · rw [if_pos hmet] at hmeet hannounce
    obtain ⟨fields, hfields⟩ := Option.isSome_iff_exists.1 (hseen.met model hmet)
    rw [run_bind, run_bind, run_bind, hmeet, hannounce]
    by_cases hhollow : Naming.embeddedType model ∈ seen.hollow
    · rw [if_pos hhollow]
      obtain ⟨other, fields', hother, hname, hdropped⟩ := hseen.hollow _ hhollow
      obtain rfl := hapart other model (by rw [hother]; rfl) (by rw [hfields]; rfl) hname
      exact sifts_dropped hseen (.hollow (hcontents.trans hother) hdropped)
    · rw [if_neg hhollow]
      exact sifts_plain hseen hvisible rfl (.known hmodel) (by rw [shapes])
  · rw [if_neg hmet] at hmeet hannounce
    let entered : Seen := { seen with embedded := model :: seen.embedded }
    rw [run_bind, hannounce] at hfirst ⊢
    rw [run_bind, run_bind, hmeet]
    obtain ⟨hbelow, hown⟩ := FirstOf.append
      (show FirstOf first (((visitAll settings (Naming.embeddedType model) decls).run
        entered.embedded).1 ++ [⟨Naming.embeddedType model, some model, decls⟩]) from hfirst)
    have hdecls : first model = some decls := hown _ (List.mem_singleton_self _) model rfl
    have hentered : entered.Sound settings first :=
      ⟨List.forall_mem_cons.2 ⟨by rw [hdecls]; rfl, hseen.met⟩, hseen.hollow⟩
    exact (h entered hentered hbelow).embedded hvisible hmodel (hcontents.trans hdecls) hdecls
      inList

/-- A field without a shape of its own is kept. -/
theorem siftsFrom_plain {decl : FieldDecl}
    (hvisible : Arena.isExcluded settings decl.name decl.hidden = false)
    (hcontents : decl.shape.contents first = none) {kept : KeptField}
    (hhead : kept.head = decl.head) (hshapes : shapes kept = []) :
    SiftsFrom settings first [decl] (pure []) (do
      let kept ← pure (some kept)
      pure kept.toList) := fun _ hseen _ =>
  sifts_plain hseen hvisible hhead (.plain hcontents hshapes) hshapes

theorem siftsFrom_ofScalar {decl : FieldDecl}
    (hvisible : Arena.isExcluded settings decl.name decl.hidden = false)
    (hcontents : decl.shape.contents first = none) (inList : Bool) (typeName : String)
    (kind : ScalarKind) (values : List String) :
    SiftsFrom settings first [decl] (pure []) (do
      let kept ← pure (some (ofScalar decl.head inList typeName kind values))
      pure kept.toList) := by
  refine siftsFrom_plain hvisible hcontents (head_ofScalar _ _ _ _ _) ?_
  rw [ofScalar]
  split <;> rw [shapes]

theorem siftsFrom_nested {decl : FieldDecl}
    (hvisible : Arena.isExcluded settings decl.name decl.hidden = false) {decls : List FieldDecl}
    (hcontents : decl.shape.contents first = some decls) (inList : Bool) (object : String)
    (h : SiftsFrom settings first decls (visitAll settings object decls)
      (keepAll settings object decls)) :
    SiftsFrom settings first [decl] (do
        let below ← visitAll settings object decls
        pure (below ++ [⟨object, none, decls⟩]))
      (do
        let kept ← (do
          let kept ← keepAll settings object decls
          pure (ofNested decl.head inList object kept))
        pure kept.toList) := by
  intro seen hseen hfirst
  exact (h seen hseen (FirstOf.append hfirst).1).nested hvisible hcontents inList object

mutual

/-- Keeping declared fields picks some of them, and leaves out dropped ones only. -/
theorem sifts_keepAll (hapart : NamedApart first) (typeName : String) : (decls : List FieldDecl) →
    SiftsFrom settings first decls (visitAll settings typeName decls)
      (keepAll settings typeName decls)
  | [], seen, hseen, _ => by
    rw [visitAll, keepAll]
    exact .nil hseen
  | decl :: rest, seen, hseen, hfirst => by
    rw [visitAll, run_bind, run_bind] at hfirst ⊢
    rw [keepAll, run_bind, run_bind]
    obtain ⟨hown, hothers⟩ := FirstOf.append hfirst
    have hdecl := sifts_keep hapart typeName decl seen hseen hown
    rw [hdecl.met] at hothers ⊢
    exact hdecl.append (sifts_keepAll hapart typeName rest _ hdecl.sound hothers)

theorem sifts_keep (hapart : NamedApart first) (typeName : String) : (decl : FieldDecl) →
    SiftsFrom settings first [decl] (visit settings typeName decl) (do
      let kept ← keep settings typeName decl
      pure kept.toList)
  | ⟨source, content, nonNull, isHidden, description, hooks⟩ => by
    rw [visit, keep]
    split
    · next hexcluded => exact fun seen hseen _ => sifts_dropped hseen (.excluded hexcluded)
    · next hvisible =>
      exact sifts_keepShape hapart typeName ⟨source, content, nonNull, isHidden, description, hooks⟩
        (Bool.eq_false_iff.2 hvisible) content rfl

theorem sifts_keepShape (hapart : NamedApart first) (typeName : String) (decl : FieldDecl)
    (hvisible : Arena.isExcluded settings decl.name decl.hidden = false) :
    (content : FieldShape FieldDecl) → decl.shape = content →
      SiftsFrom settings first [decl] (visitShape settings typeName decl.name content) (do
        let kept ← keepShape settings typeName decl.head content
        pure kept.toList)
  | .scalar kind values, hshape => by
    rw [visitShape, keepShape]
    exact siftsFrom_ofScalar hvisible (by rw [hshape, FieldShape.contents]) _ _ _ _
  | .list element, hshape => by
    rw [visitShape, keepShape]
    exact sifts_keepElement hapart typeName decl hvisible element hshape
  | .nested decls, hshape => by
    rw [visitShape, keepShape]
    exact siftsFrom_nested hvisible (by rw [hshape, FieldShape.contents]) _ _
      (sifts_keepAll hapart (Naming.nestedType typeName decl.name) decls)
  | .embedded model decls, hshape => by
    rw [visitShape, keepShape]
    exact siftsFrom_embedded hapart hvisible (by rw [hshape, FieldShape.model?])
      (by rw [hshape, FieldShape.contents]) _
      (sifts_keepAll hapart (Naming.embeddedType model) decls)
  | .reference target cardinality, hshape => by
    rw [visitShape, keepShape]
    exact siftsFrom_plain hvisible (by rw [hshape, FieldShape.contents]) rfl (by rw [shapes])

theorem sifts_keepElement (hapart : NamedApart first) (typeName : String) (decl : FieldDecl)
    (hvisible : Arena.isExcluded settings decl.name decl.hidden = false) :
    (element : ElementShape FieldDecl) → decl.shape = .list element →
      SiftsFrom settings first [decl] (visitElement settings typeName decl.name element) (do
        let kept ← keepElement settings typeName decl.head element
        pure kept.toList)
  | .scalar kind values, hshape => by
    rw [visitElement, keepElement]
    exact siftsFrom_ofScalar hvisible (by rw [hshape, FieldShape.contents]) _ _ _ _
  | .nested decls, hshape => by
    rw [visitElement, keepElement]
    exact siftsFrom_nested hvisible (by rw [hshape, FieldShape.contents]) _ _
      (sifts_keepAll hapart (Naming.nestedType typeName decl.name) decls)
  | .embedded model decls, hshape => by
    rw [visitElement, keepElement]
    exact siftsFrom_embedded hapart hvisible (by rw [hshape, FieldShape.model?])
      (by rw [hshape, FieldShape.contents]) _
      (sifts_keepAll hapart (Naming.embeddedType model) decls)

end

end Keep

end KeptField

end ModelGraph
