import Mathlib.Logic.Relation
import ModelGraph.Proofs.Graph.LaidOut
import ModelGraph.Proofs.Graph.Places

/-!
# Where fields come from

A field that is laid out is made for one declared field, whatever the names of declared fields are.
It has the source, the description and the hooks of its declaration, its type is that of the
declared shape, and its arguments are derived from this type. Types and arguments depend on what is
laid out before, so they are those of some moment of the run.

## Main definitions

- `FieldDecl.Among` — the declared fields at any depth
- `Arena.Leads` — an arena comes after another one in laying out
- `FieldDecl.Yields` — a field that is made for a declared field between two moments
- `Run.Describes` — a field of a holder that is made for a model or for a field of one

## Main statements

- `FieldDecl.yields_fields` — laying out declared fields makes all fields for one of them
- `Run.describes_of_layOut` — every field of the first phase is made for one declaration
-/

namespace ModelGraph

/-! ### Declared fields at any depth -/

/-- The fields that an element shape is declared with. -/
def ElementShape.inner : ElementShape FieldDecl → List FieldDecl
  | .scalar _ _ => []
  | .nested decls | .embedded _ decls => decls

/-- The fields that a shape is declared with. -/
def FieldShape.inner : FieldShape FieldDecl → List FieldDecl
  | .scalar _ _ | .reference _ _ => []
  | .list element => element.inner
  | .nested decls | .embedded _ decls => decls

/-- Whether a field is one of declared fields, at any depth. -/
inductive FieldDecl.Among : List FieldDecl → FieldDecl → Prop
  | here {decls : List FieldDecl} {decl : FieldDecl} : decl ∈ decls → Among decls decl
  | deeper {decls : List FieldDecl} {decl inner : FieldDecl} :
      decl ∈ decls → Among decl.shape.inner inner → Among decls inner

theorem FieldDecl.Among.mono {decls larger : List FieldDecl} {decl : FieldDecl}
    (h : Among decls decl) (hsub : decls ⊆ larger) : Among larger decl := by
  cases h with
  | here hmem => exact .here (hsub hmem)
  | deeper hmem hinner => exact .deeper (hsub hmem) hinner

/-! ### One moment after another -/

namespace Arena

/-- An elementary step of laying out: one of fields, or a finished root. -/
inductive Step : Arena → Arena → Prop
  | scalarType (arena : Arena) (parent field : String) (kind : ScalarKind)
      (values : List String) :
      Step arena ((Arena.scalarType parent field kind values).run arena).2
  | addObject (arena : Arena) (name : String) (embedded : Bool)
      (fields : OrderedMap String OutputField) :
      Step arena ((Arena.addObject name embedded fields).run arena).2
  | addSlot (arena : Arena) (slot : ReferenceSlot) :
      Step arena ((Arena.addSlot slot).run arena).2
  | argumentsOf (arena : Arena) (type : FieldType) :
      Step arena ((Arena.argumentsOf type).run arena).2
  | meetEmbedded (arena : Arena) (model : String) :
      Step arena ((Arena.meetEmbedded model).run arena).2
  | addRoot (arena : Arena) (root : ObjectType) (model : String) :
      Step arena { arena with
        roots := arena.roots.insert root.name root
        rootModels := arena.rootModels.insert root.name model }

/-- One arena leads to another by elementary steps. -/
abbrev Leads : Arena → Arena → Prop := Relation.ReflTransGen Step

theorem inherited_leads : Inherited fun {α} (computation : StateM Arena α) =>
    ∀ arena : Arena, arena.Leads (computation.run arena).2 where
  pure _ _ := .refl
  bind hfirst hnext arena := (hfirst arena).trans (hnext _ _)
  scalarType parent field kind values arena := .single (.scalarType arena parent field kind values)
  addObject name embedded fields arena := .single (.addObject arena name embedded fields)
  addSlot slot arena := .single (.addSlot arena slot)
  argumentsOf type arena := .single (.argumentsOf arena type)
  meetEmbedded model arena := .single (.meetEmbedded arena model)

/-- Laying out a model leads on. -/
theorem leads_addModel (settings : SynthSettings) (identity : Identity) (model : ModelDecl)
    (arena : Arena) :
    ((declared settings model).run arena).2.Leads
      ((addModel settings identity model).run arena).2 :=
  .single (.addRoot _ (rootOf settings identity model ((declared settings model).run arena).1)
    model.name)

end Arena

/-! ### Fields made for declarations -/

/-- A field that is made for a declared one on the way from one arena to another. -/
structure FieldDecl.Yields (settings : SynthSettings) (first last : Arena) (decl : FieldDecl)
    (field : OutputField) : Prop where
  name : field.name = Naming.sanitize decl.name
  source : field.source = decl.name
  description : field.description = decl.description
  hooks : field.hooks = decl.hooks
  identity : field.identity = false
  visible : Arena.isExcluded settings decl.name decl.hidden = false
  /-- The shape has the type of the field at some moment, and the arguments are derived next. -/
  made : ∃ owner typeName path type, ∃ start : Arena, first.Leads start ∧
    let shaped := (Arena.shapeType settings owner typeName (Path.child path decl.name) decl.name
      decl.nonNull decl.shape).run start
    let placed := (Arena.argumentsOf field.type).run shaped.2
    shaped.1 = some type ∧
      field.type = (if decl.nonNull && !type.isUnresolved then type.asNonNull else type) ∧
      field.args = placed.1 ∧ placed.2.Leads last

/-- A field that is made for one of declared fields, at any depth. -/
def FieldDecl.YieldAmong (settings : SynthSettings) (decls : List FieldDecl) (first last : Arena)
    (field : OutputField) : Prop :=
  ∃ decl, Among decls decl ∧ decl.Yields settings first last field

/-- Every new type on the way from one arena to another has fields that are made for declared ones
there. -/
def FieldDecl.YieldsTypes (settings : SynthSettings) (decls : List FieldDecl) (first last : Arena) :
    Prop :=
  ∀ name type, last.objects.get? name = some type → first.objects.get? name = some type ∨
    ∀ key field, type.fields.get? key = some field → YieldAmong settings decls first last field

namespace FieldDecl

open Arena (Leads)

section Moments

variable {settings : SynthSettings} {decls : List FieldDecl} {first middle last : Arena}

theorem Yields.mono {first' last' : Arena} {decl : FieldDecl} {field : OutputField}
    (h : decl.Yields settings first last field) (hfirst : first'.Leads first)
    (hlast : last.Leads last') : decl.Yields settings first' last' field := by
  obtain ⟨owner, typeName, path, type, start, hstart, hshaped, htype, hargs, hleads⟩ := h.made
  exact { h with
    made := ⟨owner, typeName, path, type, start, hfirst.trans hstart, hshaped, htype, hargs,
      hleads.trans hlast⟩ }

theorem YieldAmong.mono {first' last' : Arena} {field : OutputField}
    (h : YieldAmong settings decls first last field) (hfirst : first'.Leads first)
    (hlast : last.Leads last') : YieldAmong settings decls first' last' field := by
  obtain ⟨decl, hdecl, hyields⟩ := h
  exact ⟨decl, hdecl, hyields.mono hfirst hlast⟩

theorem YieldAmong.more {larger : List FieldDecl} {field : OutputField}
    (h : YieldAmong settings decls first last field)
    (hmore : ∀ decl, Among decls decl → Among larger decl) :
    YieldAmong settings larger first last field := by
  obtain ⟨decl, hdecl, hyields⟩ := h
  exact ⟨decl, hmore decl hdecl, hyields⟩

theorem YieldsTypes.of_objects_eq (h : last.objects = first.objects) :
    YieldsTypes settings decls first last := fun _ _ hget => .inl (h ▸ hget)

theorem YieldsTypes.more {larger : List FieldDecl} (h : YieldsTypes settings decls first last)
    (hmore : ∀ decl, Among decls decl → Among larger decl) :
    YieldsTypes settings larger first last := fun name type hget =>
  (h name type hget).imp_right fun hfields key field hfield => (hfields key field hfield).more hmore

theorem YieldsTypes.trans (hbefore : YieldsTypes settings decls first middle)
    (hafter : YieldsTypes settings decls middle last) (hfirst : first.Leads middle)
    (hlast : middle.Leads last) : YieldsTypes settings decls first last := by
  intro name type hget
  rcases hafter name type hget with hget | hfields
  · exact (hbefore name type hget).imp_right fun hfields key field hfield =>
      (hfields key field hfield).mono .refl hlast
  · exact .inr fun key field hfield => (hfields key field hfield).mono hfirst .refl

/-- Finishing a type of fields that are made for declared ones. -/
theorem YieldsTypes.addObject {done : OrderedMap String OutputField} (name : String)
    (embedded : Bool) (h : YieldsTypes settings decls first middle)
    (hdone : ∀ key field, done.get? key = some field →
      YieldAmong settings decls first middle field) :
    YieldsTypes settings decls first ((Arena.addObject name embedded done).run middle).2 := by
  have hlast : middle.Leads ((Arena.addObject name embedded done).run middle).2 :=
    Arena.inherited_leads.addObject name embedded done middle
  rw [Arena.run_addObject] at hlast ⊢
  intro other type hget
  have hold : middle.objects.get? other = some type → first.objects.get? other = some type ∨
      ∀ key field, type.fields.get? key = some field →
        YieldAmong settings decls first _ field := fun hget =>
    (h other type hget).imp_right fun hfields key field hfield =>
      (hfields key field hfield).mono .refl hlast
  split at hget
  · refine hold ?_
    cases embedded <;> exact hget
  · rw [OrderedMap.get?_insert] at hget
    split at hget
    · obtain rfl := Option.some.inj hget
      exact .inr fun key field hfield => (hdone key field hfield).mono .refl hlast
    · exact hold hget

/-- Finishing a type whose fields are laid out from scratch. -/
theorem yieldsTypes_finished (name : String) (embedded : Bool)
    {result : OrderedMap String OutputField × Arena}
    (h : YieldsTypes settings decls first result.2 ∧ ∀ key field,
      result.1.get? key = some field → (∅ : OrderedMap String OutputField).get? key = some field ∨
        YieldAmong settings decls first result.2 field) :
    YieldsTypes settings decls first ((Arena.addObject name embedded result.1).run result.2).2 :=
  h.1.addObject name embedded fun key field hfield =>
    (h.2 key field hfield).resolve_left fun hnone => by cases hnone

end Moments

section Fields

variable (settings : SynthSettings) (owner : String)

/-- An embedded model that is met for the first time gets a type of its fields. -/
theorem yieldsTypes_embedded (model path : String) {decls : List FieldDecl}
    (h : ∀ arena : Arena,
      let result := (Arena.fields settings owner (Naming.embeddedType model) path decls ∅).run arena
      YieldsTypes settings decls arena result.2 ∧ ∀ key field,
        result.1.get? key = some field →
          (∅ : OrderedMap String OutputField).get? key = some field ∨
            YieldAmong settings decls arena result.2 field)
    (arena : Arena) :
    YieldsTypes settings decls arena ((do
      match ← Arena.meetEmbedded model with
      | some known => pure known
      | none =>
        let done ← Arena.fields settings owner (Naming.embeddedType model) path decls ∅
        Arena.addObject (Naming.embeddedType model) true done :
      StateM Arena (Option FieldType)).run arena).2 := by
  have hmeet := Arena.run_meetEmbedded model arena
  rw [run_bind]
  by_cases hknown : model ∈ arena.embedded
  · rw [if_pos hknown] at hmeet
    rw [hmeet]
    exact .of_objects_eq rfl
  · rw [if_neg hknown] at hmeet
    let met : Arena := { arena with embedded := model :: arena.embedded }
    have hmet : arena.Leads met := by
      have hstep := Arena.inherited_leads.meetEmbedded model arena
      rwa [hmeet] at hstep
    have hnone : YieldsTypes settings decls arena met := .of_objects_eq rfl
    have hfields := Arena.inherited_leads.fields settings owner (Naming.embeddedType model) path
      decls ∅ met
    rw [hmeet]
    exact hnone.trans (yieldsTypes_finished _ true (h met)) hmet
      (hfields.trans (Arena.inherited_leads.addObject _ _ _ _))

mutual

/-- Laying out declared fields makes each new field, and all fields of each new type, for one of
them. -/
theorem yields_fields (typeName path : String) : (decls : List FieldDecl) →
    (done : OrderedMap String OutputField) → (arena : Arena) →
      let result := (Arena.fields settings owner typeName path decls done).run arena
      YieldsTypes settings decls arena result.2 ∧
        ∀ key field, result.1.get? key = some field → done.get? key = some field ∨
          YieldAmong settings decls arena result.2 field
  | [], done, arena => by
    rw [Arena.fields]
    exact ⟨.of_objects_eq rfl, fun key field hfield => .inl hfield⟩
  | decl :: rest, done, arena => by
    let placed := (Arena.field settings owner typeName path decl).run arena
    let done' := match placed.1 with
      | some output => done.insert output.name output
      | none => done
    have hrun : (Arena.fields settings owner typeName path (decl :: rest) done).run arena =
        (Arena.fields settings owner typeName path rest done').run placed.2 := by
      rw [Arena.fields, run_bind]
      change (match placed.1 with
        | some output => _
        | none => _ : StateM Arena _).run placed.2 = _
      cases hplaced : placed.1 <;> simp only [done', hplaced]
    obtain ⟨htypes, hfield⟩ := yields_field typeName path decl arena
    obtain ⟨htypesRest, hrest⟩ := yields_fields typeName path rest done' placed.2
    have hfirst : arena.Leads placed.2 :=
      Arena.inherited_leads.field settings owner typeName path decl arena
    have hlast := Arena.inherited_leads.fields settings owner typeName path rest done' placed.2
    have hbelow : ∀ inner, Among decl.shape.inner inner → Among (decl :: rest) inner :=
      fun inner hinner => .deeper (List.mem_cons_self ..) hinner
    have hlater : ∀ inner, Among rest inner → Among (decl :: rest) inner :=
      fun inner hinner => hinner.mono (List.subset_cons_self ..)
    rw [hrun]
    refine ⟨(htypes.more hbelow).trans (htypesRest.more hlater) hfirst hlast,
      fun key field hget => ?_⟩
    rcases hrest key field hget with hget | hyields
    · -- The field is the one of this declaration, or one from before.
      cases hplaced : placed.1 with
      | none =>
        simp only [done', hplaced] at hget
        exact .inl hget
      | some output =>
        simp only [done', hplaced, OrderedMap.get?_insert] at hget
        split at hget
        · obtain rfl := Option.some.inj hget
          exact .inr ⟨decl, .here (List.mem_cons_self ..), (hfield output hplaced).mono .refl hlast⟩
        · exact .inl hget
    · exact .inr ((hyields.more hlater).mono hfirst .refl)

theorem yields_field (typeName path : String) : (decl : FieldDecl) → (arena : Arena) →
    let result := (Arena.field settings owner typeName path decl).run arena
    YieldsTypes settings decl.shape.inner arena result.2 ∧
      ∀ field, result.1 = some field → decl.Yields settings arena result.2 field
  | ⟨source, shape, nonNull, hidden, description, hooks⟩, arena => by
    have htypes := yields_shapeType typeName (Path.child path source) source nonNull shape arena
    have hfirst := Arena.inherited_leads.shapeType settings owner typeName (Path.child path source)
      source nonNull shape arena
    rw [Arena.field]
    split
    · exact ⟨.of_objects_eq rfl, fun field hfield => by cases hfield⟩
    · next hvisible =>
      rw [run_bind]
      cases hshaped : (Arena.shapeType settings owner typeName (Path.child path source) source
        nonNull shape).run arena with
      | mk type shaped =>
      rw [hshaped] at htypes hfirst
      cases type with
      | none => exact ⟨htypes, fun field hfield => by cases hfield⟩
      | some type =>
        let final := if nonNull && !type.isUnresolved then type.asNonNull else type
        have hlast : shaped.Leads ((Arena.argumentsOf final).run shaped).2 :=
          Arena.inherited_leads.argumentsOf final shaped
        have hobjects : ((Arena.argumentsOf final).run shaped).2.objects = shaped.objects := by
          rw [Arena.run_argumentsOf]
          split <;> rfl
        refine ⟨htypes.trans (.of_objects_eq hobjects) hfirst hlast, fun field hfield => ?_⟩
        obtain rfl := Option.some.inj hfield
        exact {
          name := rfl
          source := rfl
          description := rfl
          hooks := rfl
          identity := rfl
          visible := Bool.eq_false_iff.2 hvisible
          made := by
            refine ⟨owner, typeName, path, type, arena, .refl, ?_⟩
            rw [hshaped]
            exact ⟨rfl, rfl, rfl, .refl⟩ }

theorem yields_shapeType (typeName path source : String) (nonNull : Bool) :
    (shape : FieldShape FieldDecl) → (arena : Arena) →
      YieldsTypes settings shape.inner arena ((Arena.shapeType settings owner typeName path source
        nonNull shape).run arena).2
  | .scalar kind values, arena => by
    refine .of_objects_eq ?_
    rw [Arena.shapeType, run_bind, Arena.run_scalarType]
    split <;> rfl
  | .list element, arena => by
    rw [Arena.shapeType]
    exact yields_elementType typeName path source element arena
  | .nested decls, arena => by
    rw [Arena.shapeType]
    exact yieldsTypes_finished (Naming.nestedType typeName source) false
      (yields_fields (Naming.nestedType typeName source) path decls ∅ arena)
  | .embedded model decls, arena => by
    rw [Arena.shapeType]
    exact yieldsTypes_embedded settings owner model path
      (yields_fields (Naming.embeddedType model) path decls ∅) arena
  | .reference target cardinality, arena => by
    rw [Arena.shapeType]
    exact .of_objects_eq rfl

theorem yields_elementType (typeName path source : String) :
    (element : ElementShape FieldDecl) → (arena : Arena) →
      YieldsTypes settings element.inner arena ((Arena.elementType settings owner typeName path
        source element).run arena).2
  | .scalar kind values, arena => by
    refine .of_objects_eq ?_
    rw [Arena.elementType, run_bind, Arena.run_scalarType]
    split <;> rfl
  | .nested decls, arena => by
    rw [Arena.elementType]
    exact yieldsTypes_finished (Naming.nestedType typeName source) false
      (yields_fields (Naming.nestedType typeName source) path decls ∅ arena)
  | .embedded model decls, arena => by
    rw [Arena.elementType]
    exact yieldsTypes_embedded settings owner model path
      (yields_fields (Naming.embeddedType model) path decls ∅) arena

end

end Fields

end FieldDecl

/-! ### Models -/

namespace Run

variable (run : Run) (models : List ModelDecl)

/-- A field of a holder that is made for a model, as its identity field, or for one of the fields
that a model declares. A root has fields of its own model only. -/
inductive Describes (last : Arena) : Holder → OutputField → Prop
  | identity {model : ModelDecl} : model ∈ models →
      Describes last (.root (Naming.sanitize model.name))
        (.ofIdentity (Arena.identitySource run.settings model))
  | declared {model : ModelDecl} {holder : Holder} {decl : FieldDecl} {field : OutputField} :
      model ∈ models → (∀ name, holder = .root name → name = Naming.sanitize model.name) →
      FieldDecl.Among model.ownFields decl → decl.Yields run.settings {} last field →
        Describes last holder field

variable {run models}

theorem Describes.mono {last last' : Arena} {holder : Holder} {field : OutputField}
    (h : run.Describes models last holder field) (hleads : last.Leads last') :
    run.Describes models last' holder field := by
  cases h with
  | identity hmodel => exact .identity hmodel
  | declared hmodel hholder hdecl hyields =>
    exact .declared hmodel hholder hdecl (hyields.mono .refl hleads)

/-- Laying out another model makes its fields for the model, and leaves the others. -/
theorem describes_addModel {arena : Arena} (hstart : Arena.Leads {} arena)
    (h : ∀ place field, arena.fieldAt? place = some field →
      run.Describes models arena place.holder field) {model : ModelDecl} (hmodel : model ∈ models)
    {place : FieldPlace} {field : OutputField}
    (hfield : ((Arena.addModel run.settings run.identity model).run arena).2.fieldAt? place =
      some field) :
    run.Describes models ((Arena.addModel run.settings run.identity model).run arena).2
      place.holder field := by
  obtain ⟨holder, key⟩ := place
  obtain ⟨type, htype, hget⟩ := Option.bind_eq_some_iff.1 hfield
  let declared := (Arena.declared run.settings model).run arena
  have hfirst : arena.Leads declared.2 :=
    Arena.inherited_leads.fields run.settings _ _ "" model.ownFields ∅ arena
  have hlast := Arena.leads_addModel run.settings run.identity model arena
  have hall := hfirst.trans hlast
  obtain ⟨htypes, hfields⟩ := FieldDecl.yields_fields run.settings (Naming.sanitize model.name)
    (Naming.sanitize model.name) "" model.ownFields ∅ arena
  have hown : ∀ holder field, (∀ name, holder = .root name → name = Naming.sanitize model.name) →
      FieldDecl.YieldAmong run.settings model.ownFields arena declared.2 field →
        run.Describes models _ holder field := fun holder field hholder ⟨decl, hdecl, hyields⟩ =>
    .declared hmodel hholder hdecl (hyields.mono hstart hlast)
  rw [Arena.run_addModel] at htype hall hown ⊢
  cases holder with
  | root name =>
    change (arena.roots.insert (Naming.sanitize model.name) _).get? name = some type at htype
    rw [OrderedMap.get?_insert] at htype
    split at htype
    · next hname =>
      obtain rfl := hname
      obtain rfl := Option.some.inj htype
      rcases Arena.get?_rootOf.1 hget with hget | ⟨-, -, rfl⟩
      · refine hown _ field (fun name hname => (Holder.root.inj hname).symm) ?_
        exact (hfields key field hget).resolve_left fun hnone => by cases hnone
      · exact .identity hmodel
    · have hold : arena.fieldAt? ⟨.root name, key⟩ = some field :=
        Option.bind_eq_some_iff.2 ⟨type, htype, hget⟩
      exact (h _ field hold).mono hall
  | object name =>
    rcases htypes name type htype with hbefore | hnew
    · have hold : arena.fieldAt? ⟨.object name, key⟩ = some field :=
        Option.bind_eq_some_iff.2 ⟨type, hbefore, hget⟩
      exact (h _ field hold).mono hall
    · exact hown _ field (fun name hname => by cases hname) (hnew key field hget)

/-- Every field of the first phase is made for one declaration. -/
theorem describes_of_layOut (run : Run) (models : List ModelDecl) {place : FieldPlace}
    {field : OutputField} (hfield : (run.layOut models).fieldAt? place = some field) :
    run.Describes models (run.layOut models) place.holder field := by
  refine (run.layOut_induct models (P := fun _ arena => Arena.Leads {} arena ∧
    ∀ place field, arena.fieldAt? place = some field →
      run.Describes models arena place.holder field) ⟨.refl, ?_⟩ ?_).2 place field hfield
  · rintro ⟨holder, key⟩ field hfield
    cases holder <;> cases hfield
  · rintro - arena model hmodel ⟨hstart, h⟩
    have hfirst : arena.Leads ((Arena.declared run.settings model).run arena).2 :=
      Arena.inherited_leads.fields run.settings _ _ "" model.ownFields ∅ arena
    exact ⟨(hstart.trans hfirst).trans
      (Arena.leads_addModel run.settings run.identity model arena),
      fun place field => describes_addModel hstart h hmodel⟩

end Run

end ModelGraph
