import ModelGraph.Proofs.Graph.Declarations
import ModelGraph.Proofs.Graph.Drawn
import ModelGraph.Proofs.Graph.Visited

/-!
# Kept fields are not dropped

Keeping leaves out dropped fields only. It leaves out all of them, as is seen by induction on what
it means to be dropped. A field that is kept for an embedded model which was met before mentions the
type of that model, and this type is one of the run, even when the field was met inside of the
model. So the first occurrence of the model keeps a field, and it cannot be that all of its fields
are dropped.

## Main definitions

- `Announces` — visited shapes and the embedded models that are met for the first time there
- `KeptField.OfVisible` — a kept field of a visible declared one

## Main statements

- `Run.nodup_embeddedModels` — every embedded model has one first occurrence
- `Run.picks_and_covers` — models keep some of their fields, and the others are dropped
- `Run.not_of_dropped` — no visible field that is dropped is kept
-/

namespace ModelGraph

/-! ### First occurrences -/

/-- Visiting shapes meets just the embedded models of these shapes, each for the first time. -/
structure Announces (met : List String) (visited : List VisitedShape × List String) : Prop where
  perm : visited.2.Perm (visited.1.filterMap VisitedShape.model? ++ met)
  nodup : met.Nodup → visited.2.Nodup

theorem Announces.nil (met : List String) : Announces met ([], met) := ⟨.rfl, id⟩

theorem Announces.append {met : List String} {visited more : List VisitedShape × List String}
    (h : Announces met visited) (h' : Announces visited.2 more) :
    Announces met (visited.1 ++ more.1, more.2) where
  perm := by
    rw [List.filterMap_append]
    refine h'.perm.trans ((h.perm.append_left _).trans ?_)
    rw [← List.append_assoc]
    exact List.perm_append_comm.append_right met
  nodup := h'.nodup ∘ h.nodup

theorem Announces.nested {met : List String} {visited : List VisitedShape × List String}
    (h : Announces met visited) (object : String) (decls : List FieldDecl) :
    Announces met (visited.1 ++ [⟨object, none, decls⟩], visited.2) where
  perm := by
    rw [List.filterMap_append]
    exact h.perm.trans (by simp)
  nodup := h.nodup

theorem Announces.embedded {met : List String} {visited : List VisitedShape × List String}
    {model : String} (h : Announces (model :: met) visited) (hnew : model ∉ met) (object : String)
    (decls : List FieldDecl) :
    Announces met (visited.1 ++ [⟨object, some model, decls⟩], visited.2) where
  perm := by
    rw [List.filterMap_append]
    exact h.perm.trans (by simp)
  nodup hmet := h.nodup (List.nodup_cons.2 ⟨hnew, hmet⟩)

namespace FieldDecl

variable (settings : SynthSettings)

/-- An embedded shape is visited where its model is announced. -/
theorem announces_embedded {model : String} {decls : List FieldDecl}
    (h : ∀ met, Announces met ((visitAll settings (Naming.embeddedType model) decls).run met))
    (met : List String) : Announces met ((do
        if ← announce model then
          let below ← visitAll settings (Naming.embeddedType model) decls
          pure (below ++ [⟨Naming.embeddedType model, some model, decls⟩])
        else pure [] : StateM (List String) (List VisitedShape)).run met) := by
  rw [run_bind, run_announce]
  split
  · exact .nil met
  · next hnew => exact (h (model :: met)).embedded hnew _ decls

mutual

theorem announces_visitAll (typeName : String) : (decls : List FieldDecl) → (met : List String) →
    Announces met ((visitAll settings typeName decls).run met)
  | [], met => by
    rw [visitAll]
    exact .nil met
  | decl :: rest, met => by
    rw [visitAll, run_bind, run_bind]
    exact (announces_visit typeName decl met).append (announces_visitAll typeName rest _)

theorem announces_visit (typeName : String) : (decl : FieldDecl) → (met : List String) →
    Announces met ((visit settings typeName decl).run met)
  | ⟨name, content, _, isHidden, _, _⟩, met => by
    rw [visit]
    split
    · exact .nil met
    · exact announces_visitShape typeName name content met

theorem announces_visitShape (typeName name : String) : (content : FieldShape FieldDecl) →
    (met : List String) → Announces met ((visitShape settings typeName name content).run met)
  | .scalar _ _, met | .reference _ _, met => by
    rw [visitShape]
    exact .nil met
  | .list element, met => by
    rw [visitShape]
    exact announces_visitElement typeName name element met
  | .nested decls, met => by
    rw [visitShape]
    exact (announces_visitAll (Naming.nestedType typeName name) decls met).nested _ decls
  | .embedded model decls, met => by
    rw [visitShape]
    exact announces_embedded settings (announces_visitAll (Naming.embeddedType model) decls) met

theorem announces_visitElement (typeName name : String) : (element : ElementShape FieldDecl) →
    (met : List String) → Announces met ((visitElement settings typeName name element).run met)
  | .scalar _ _, met => by
    rw [visitElement]
    exact .nil met
  | .nested decls, met => by
    rw [visitElement]
    exact (announces_visitAll (Naming.nestedType typeName name) decls met).nested _ decls
  | .embedded model decls, met => by
    rw [visitElement]
    exact announces_embedded settings (announces_visitAll (Naming.embeddedType model) decls) met

end

end FieldDecl

/-- When no model is met twice, the first shape that is embedded from a model is the only one. -/
theorem find?_model_of_nodup {shapes : List VisitedShape}
    (hnodup : (shapes.filterMap VisitedShape.model?).Nodup) {shape : VisitedShape}
    (hshape : shape ∈ shapes) {model : String} (hmodel : shape.model? = some model) :
    shapes.find? (fun shape => shape.model? = some model) = some shape := by
  induction shapes with
  | nil => exact absurd hshape List.not_mem_nil
  | cons first rest ih =>
    rw [List.find?_cons]
    rcases List.mem_cons.1 hshape with rfl | hshape
    · rw [decide_eq_true hmodel]
    · have hother : first.model? ≠ some model := by
        intro heq
        rw [List.filterMap_cons_some heq, List.nodup_cons] at hnodup
        exact hnodup.1 (List.mem_filterMap.2 ⟨shape, hshape, hmodel⟩)
      rw [decide_eq_false hother]
      exact ih (hnodup.sublist ((List.sublist_cons_self ..).filterMap _)) hshape

namespace Run

variable (run : Run) (models : List ModelDecl)

/-- Every embedded model of a run has one first occurrence. -/
theorem nodup_embeddedModels : (run.embeddedModels models).Nodup := by
  have hmapM : ∀ met : List String,
      let visited := (models.mapM (ModelDecl.visit run.settings)).run met
      Announces met (visited.1.flatten, visited.2) := by
    induction models with
    | nil => exact fun met => .nil met
    | cons model rest ih =>
      intro met
      rw [List.mapM_cons]
      exact (FieldDecl.announces_visitAll run.settings (Naming.sanitize model.name)
        model.ownFields met).append (ih _)
  obtain ⟨hperm, hnodup⟩ := hmapM []
  rw [List.append_nil] at hperm
  exact hperm.nodup_iff.1 (hnodup List.nodup_nil)

variable {run models}

/-- The first occurrence of an embedded model is a visited shape. -/
theorem firstFields_of_mem {shape : VisitedShape} (hshape : shape ∈ run.visited models)
    {model : String} (hmodel : shape.model? = some model) :
    run.firstFields models model = some shape.fields := by
  rw [firstFields, find?_model_of_nodup (run.nodup_embeddedModels models) hshape hmodel]
  rfl

theorem mem_embeddedModels_of_isSome {model : String}
    (h : (run.firstFields models model).isSome) : model ∈ run.embeddedModels models := by
  rw [firstFields, Option.isSome_map] at h
  obtain ⟨shape, hshape⟩ := Option.isSome_iff_exists.1 h
  have hmodel : decide (shape.model? = some model) = true :=
    List.find?_some (p := fun shape : VisitedShape => decide (shape.model? = some model)) hshape
  exact List.mem_filterMap.2 ⟨shape, List.mem_of_find?_eq_some hshape, of_decide_eq_true hmodel⟩

/-! ### Sifting the models of a run -/

/-- The fields that the models of a run keep are picked from the declared ones, and their object
types are those of visited shapes. -/
theorem picks_and_covers (hapart : KeptField.NamedApart (run.firstFields models)) :
    (∀ kept ∈ run.kept models, ∃ model ∈ models, kept.owner = Naming.sanitize model.name ∧
      KeptField.Picks run.settings (run.firstFields models) model.ownFields kept.fields) ∧
    Covers run.settings (run.firstFields models) (run.visited models) (run.shapes models) := by
  have hmapM : ∀ (rest : List ModelDecl) (seen : Seen),
      seen.Sound run.settings (run.firstFields models) →
      KeptField.FirstOf (run.firstFields models)
        ((rest.mapM (ModelDecl.visit run.settings)).run seen.embedded).1.flatten →
      (∀ kept ∈ ((rest.mapM (ModelDecl.keep run.settings)).run seen).1, ∃ model ∈ rest,
        kept.owner = Naming.sanitize model.name ∧
          KeptField.Picks run.settings (run.firstFields models) model.ownFields kept.fields) ∧
      Covers run.settings (run.firstFields models)
        ((rest.mapM (ModelDecl.visit run.settings)).run seen.embedded).1.flatten
        (((rest.mapM (ModelDecl.keep run.settings)).run seen).1.flatMap KeptModel.shapes) := by
    intro rest
    induction rest with
    | nil => exact fun seen _ _ => ⟨fun _ h => absurd h List.not_mem_nil, .nil⟩
    | cons model rest ih =>
      intro seen hseen hfirst
      rw [List.mapM_cons, run_bind, run_bind] at hfirst ⊢
      rw [List.mapM_cons, run_bind, run_bind]
      obtain ⟨hown, hothers⟩ := KeptField.FirstOf.append hfirst
      have hsifts := KeptField.sifts_keepAll hapart (Naming.sanitize model.name) model.ownFields
        seen hseen hown
      have hmet : ((model.visit run.settings).run seen.embedded).2 =
        ((model.keep run.settings).run seen).2.embedded := hsifts.met
      rw [hmet] at hothers ⊢
      obtain ⟨hpicks, hcovers⟩ := ih _ hsifts.sound hothers
      refine ⟨fun kept hkept => ?_, hsifts.covers.append hcovers⟩
      rcases List.mem_cons.1 hkept with rfl | hkept
      · exact ⟨model, List.mem_cons_self .., rfl, hsifts.picks⟩
      · obtain ⟨other, hother, hpicked⟩ := hpicks kept hkept
        exact ⟨other, List.mem_cons_of_mem _ hother, hpicked⟩
  refine hmapM models {} ⟨fun _ h => absurd h List.not_mem_nil, fun _ h =>
    absurd h List.not_mem_nil⟩ fun shape hshape model hmodel => firstFields_of_mem hshape hmodel

end Run

/-! ### Fields that are kept are not dropped -/

theorem FieldShape.contents_of_model {shape : FieldShape FieldDecl} {model : String}
    (h : shape.model? = some model) (first : String → Option (List FieldDecl)) :
    shape.contents first = first model := by
  cases shape with
  | embedded other decls =>
    cases h
    rfl
  | list element =>
    cases element with
    | embedded other decls =>
      cases h
      rfl
    | scalar _ _ | nested _ => cases h
  | scalar _ _ | nested _ | reference _ _ => cases h

namespace KeptField

variable {settings : SynthSettings} {first : String → Option (List FieldDecl)}

/-- A field that is kept for a declared one with contents is known from elsewhere, or a shape with
some of the contents. -/
theorem Of.of_contents {decl : FieldDecl} {fields : List FieldDecl} {kept : KeptField}
    (h : Of settings first decl kept) (hcontents : decl.shape.contents first = some fields) :
    (∃ head model inList, decl.shape.model? = some model ∧
      kept = .value head (.listIf inList (.object (Naming.embeddedType model))) []) ∨
    ∃ head inList object embedded inner, kept = .shape head inList object embedded inner ∧
      (embedded = true → ∃ model, decl.shape.model? = some model ∧
        object = Naming.embeddedType model) ∧
      Picks settings first fields inner ∧ inner ≠ [] := by
  cases h with
  | plain hplain =>
    rw [hcontents] at hplain
    cases hplain
  | known hmodel => exact .inl ⟨_, _, _, hmodel, rfl⟩
  | shape hown hmodel hpicks hinner =>
    obtain rfl := Option.some.inj (hcontents.symm.trans hown)
    exact .inr ⟨_, _, _, _, _, rfl, hmodel, hpicks, hinner⟩

/-- A shape is kept for a declared field with contents, some of which it has. -/
theorem Of.of_shape {decl : FieldDecl} {head : FieldHead} {inList embedded : Bool}
    {object : String} {inner : List KeptField}
    (h : Of settings first decl (.shape head inList object embedded inner)) :
    ∃ fields, decl.shape.contents first = some fields ∧
      (embedded = true → ∃ model, decl.shape.model? = some model ∧
        object = Naming.embeddedType model) ∧
      Picks settings first fields inner ∧ inner ≠ [] := by
  cases h with
  | plain _ hshapes =>
    rw [shapes] at hshapes
    exact absurd hshapes (List.append_ne_nil_of_right_ne_nil _ (List.cons_ne_nil _ _))
  | shape hown hmodel hpicks hinner => exact ⟨_, hown, hmodel, hpicks, hinner⟩

/-- Whether a kept field is one of a visible declared field. -/
def OfVisible (settings : SynthSettings) (first : String → Option (List FieldDecl))
    (kept : KeptField) : Prop :=
  ∃ decl : FieldDecl, Arena.isExcluded settings decl.name decl.hidden = false ∧
    Of settings first decl kept

theorem Picks.ofVisible {decls : List FieldDecl} {kept : List KeptField}
    (h : Picks settings first decls kept) : ∀ field ∈ kept, field.OfVisible settings first := by
  intro field hfield
  obtain ⟨decl, -, hof⟩ := h.exists_of hfield
  exact ⟨decl, hof⟩

mutual

theorem ofVisible_placed (owner path : String) : (kept : KeptField) →
    kept.OfVisible settings first →
      ∀ found ∈ placed owner path kept, found.field.OfVisible settings first
  | .value _ _ _, h | .reference _ _ _, h => by
    rw [placed]
    intro found hfound
    rw [List.mem_singleton.1 hfound]
    exact h
  | .shape head inList object embedded fields, h => by
    obtain ⟨decl, hvisible, hof⟩ := h
    obtain ⟨_, -, -, hpicks, -⟩ := hof.of_shape
    rw [placed]
    intro found hfound
    rcases List.mem_cons.1 hfound with rfl | hfound
    · exact ⟨decl, hvisible, hof⟩
    · exact ofVisible_placedAll owner (Path.child path head.source) fields hpicks.ofVisible found
        hfound

/-- What is kept at any depth is of visible declared fields when the fields at the top are. -/
theorem ofVisible_placedAll (owner path : String) : (kept : List KeptField) →
    (∀ field ∈ kept, field.OfVisible settings first) →
      ∀ found ∈ placedAll owner path kept, found.field.OfVisible settings first
  | [], _ => by
    rw [placedAll]
    exact fun _ h => absurd h List.not_mem_nil
  | kept :: rest, h => by
    rw [placedAll]
    obtain ⟨hkept, hrest⟩ := List.forall_mem_cons.1 h
    intro found hfound
    rcases List.mem_append.1 hfound with hfound | hfound
    · exact ofVisible_placed owner path kept hkept found hfound
    · exact ofVisible_placedAll owner path rest hrest found hfound

end

end KeptField

namespace Run

variable {run : Run} {models : List ModelDecl}

theorem ofVisible_of_mem (hapart : KeptField.NamedApart (run.firstFields models))
    {placed : PlacedField} (hplaced : placed ∈ run.placed models) :
    placed.field.OfVisible run.settings (run.firstFields models) := by
  obtain ⟨kept, hkept, hplaced⟩ := List.mem_flatMap.1 hplaced
  obtain ⟨model, -, -, hpicks⟩ := (picks_and_covers hapart).1 kept hkept
  exact KeptField.ofVisible_placedAll kept.owner "" kept.fields hpicks.ofVisible placed hplaced

/-- A field of a shape of a run is a field of the run. -/
theorem exists_placed_of_shape {shape : PlacedField} (hshape : shape ∈ run.placed models)
    {head : FieldHead} {inList embedded : Bool} {object : String} {fields : List KeptField}
    (heq : shape.field = .shape head inList object embedded fields) {field : KeptField}
    (hfield : field ∈ fields) : ∃ placed ∈ run.placed models, placed.field = field := by
  refine ⟨⟨shape.owner, Path.child shape.path head.source, field⟩, mem_placed_of_below hshape ?_,
    rfl⟩
  rw [PlacedField.below, heq, KeptField.placed]
  exact List.mem_cons_of_mem _ (KeptField.mem_placedAll_self hfield)

/-- No visible field that is dropped is kept. -/
theorem not_of_dropped (hapart : KeptField.NamedApart (run.firstFields models)) {decl : FieldDecl}
    (hdropped : FieldDecl.Dropped run.settings (run.firstFields models) decl)
    (hvisible : Arena.isExcluded run.settings decl.name decl.hidden = false) {placed : PlacedField}
    (hplaced : placed ∈ run.placed models) :
    ¬ KeptField.Of run.settings (run.firstFields models) decl placed.field := by
  induction hdropped generalizing placed with
  | excluded hexcluded =>
    rw [hvisible] at hexcluded
    cases hexcluded
  | @hollow decl fields hcontents _ ih =>
    -- None of the fields is kept in a shape of the run.
    have hnone : ∀ shape ∈ run.placed models, ∀ head inList object embedded inner,
        shape.field = .shape head inList object embedded inner →
          KeptField.Picks run.settings (run.firstFields models) fields inner → inner = [] := by
      intro shape hshape head inList object embedded inner heq hpicks
      refine List.eq_nil_iff_forall_not_mem.2 fun field hfield => ?_
      obtain ⟨found, hfound, hshown, hof⟩ := hpicks.exists_of hfield
      obtain ⟨below, hbelow, rfl⟩ := exists_placed_of_shape hshape heq hfield
      exact ih found hfound hshown hbelow hof
    intro hof
    rcases hof.of_contents hcontents with ⟨head, model, inList, hmodel, hfield⟩ |
      ⟨head, inList, object, embedded, inner, hfield, -, hpicks, hinner⟩
    · -- The type is that of a shape of the run, whose model has the same first occurrence.
      have hrefers := refersTo_of_mem hplaced
      rw [hfield, KeptField.RefersTo, FieldType.innermost_listIf] at hrefers
      obtain ⟨shape, hshape, head', inList', inner, heq⟩ := hrefers
      obtain ⟨decl', -, hof'⟩ := ofVisible_of_mem hapart hshape
      rw [heq] at hof'
      obtain ⟨fields', hown, hmodel', hpicks, hinner⟩ := hof'.of_shape
      obtain ⟨other, hother, hname⟩ := hmodel' rfl
      rw [FieldShape.contents_of_model hmodel] at hcontents
      rw [FieldShape.contents_of_model hother] at hown
      obtain rfl := hapart model other (by rw [hcontents]; rfl) (by rw [hown]; rfl) hname
      obtain rfl := Option.some.inj (hcontents.symm.trans hown)
      exact hinner (hnone shape hshape _ _ _ _ _ heq hpicks)
    · exact hinner (hnone placed hplaced _ _ _ _ _ hfield hpicks)

end Run

end ModelGraph
