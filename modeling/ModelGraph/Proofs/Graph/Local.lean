import Mathlib.Data.List.Perm.Basic
import ModelGraph.Proofs.Graph.Faithful
import ModelGraph.Proofs.Graph.Populated
import ModelGraph.Proofs.Graph.Visible

/-!
# The types of a model are its own

Models without embedded fields keep their fields one by one: nothing is remembered from one to the
next. When such models make different names too, they are strangers, so each of them is laid out and
resolved as if it were alone. Its root then reaches just the types that it makes, in the same order,
whatever the other models are and wherever it stands among them.

One thing can still get in between. Arguments mention the scalars and the two enums that every
schema knows, and the search takes a nested type of another model for one of these when it has its
name.

## Main definitions

- `ModelDecl.embeds` — whether a model has an embedded field
- `TypeGraph.rootTypes?` — a root with the types that it reaches
- `Run.Around` — models among which a given one is on its own

## Main statements

- `Run.Around.separate` — models without embedded fields that make different names are separate
- `Run.Around.rootTypes?_eq` — what a root reaches is what it reaches alone
- `Run.rootTypes?_of_synthesize` — two runs find the same types for a model
-/

namespace ModelGraph

/-! ### Models without embedded fields -/

namespace FieldDecl

mutual

/-- Whether one of declared fields is embedded, at any depth. -/
def embedsAll : List FieldDecl → Bool
  | [] => false
  | decl :: rest => embeds decl || embedsAll rest

/-- Whether a declared field is embedded, or a field below it. -/
def embeds : FieldDecl → Bool
  | ⟨_, shape, _, _, _, _⟩ => embedsShape shape

def embedsShape : FieldShape FieldDecl → Bool
  | .scalar _ _ | .reference _ _ => false
  | .list element => embedsElement element
  | .nested decls => embedsAll decls
  | .embedded _ _ => true

def embedsElement : ElementShape FieldDecl → Bool
  | .scalar _ _ => false
  | .nested decls => embedsAll decls
  | .embedded _ _ => true

end

theorem embedsAll_filter {decls : List FieldDecl} (h : embedsAll decls = false)
    (p : FieldDecl → Bool) : embedsAll (decls.filter p) = false := by
  induction decls with
  | nil => exact h
  | cons decl rest ih =>
    rw [embedsAll, Bool.or_eq_false_iff] at h
    rw [List.filter_cons]
    split
    · rw [embedsAll, h.1, ih h.2, Bool.or_false]
    · exact ih h.2

end FieldDecl

/-- Whether a model has an embedded field, at any depth. -/
def ModelDecl.embeds (model : ModelDecl) : Bool := FieldDecl.embedsAll model.fields

namespace KeptField

open FieldDecl

variable (settings : SynthSettings)

mutual

/-- Fields without embedded ones are kept whatever was met before, and nothing is remembered. -/
theorem exists_keepAll_eq (typeName : String) : (decls : List FieldDecl) →
    embedsAll decls = false → ∃ kept, keepAll settings typeName decls = pure kept
  | [], _ => ⟨[], by rw [keepAll]⟩
  | decl :: rest, h => by
    rw [embedsAll, Bool.or_eq_false_iff] at h
    obtain ⟨first, hfirst⟩ := exists_keep_eq typeName decl h.1
    obtain ⟨others, hothers⟩ := exists_keepAll_eq typeName rest h.2
    exact ⟨first.toList ++ others, by rw [keepAll, hfirst, hothers, pure_bind, pure_bind]⟩

theorem exists_keep_eq (typeName : String) : (decl : FieldDecl) → decl.embeds = false →
    ∃ kept, keep settings typeName decl = pure kept
  | ⟨source, content, nonNull, isHidden, description, hooks⟩, h => by
    rw [embeds] at h
    rw [keep]
    split
    · exact ⟨none, rfl⟩
    · exact exists_keepShape_eq typeName ⟨source, nonNull, description, hooks⟩ content h

theorem exists_keepShape_eq (typeName : String) (head : FieldHead) :
    (content : FieldShape FieldDecl) → embedsShape content = false →
      ∃ kept, keepShape settings typeName head content = pure kept
  | .scalar kind values, _ => ⟨_, by rw [keepShape]⟩
  | .list element, h => by
    rw [embedsShape] at h
    rw [keepShape]
    exact exists_keepElement_eq typeName head element h
  | .nested decls, h => by
    rw [embedsShape] at h
    obtain ⟨kept, hkept⟩ :=
      exists_keepAll_eq (Naming.nestedType typeName head.source) decls h
    exact ⟨_, by rw [keepShape, hkept, pure_bind]⟩
  | .embedded _ _, h => by
    rw [embedsShape] at h
    cases h
  | .reference target cardinality, _ => ⟨_, by rw [keepShape]⟩

theorem exists_keepElement_eq (typeName : String) (head : FieldHead) :
    (element : ElementShape FieldDecl) → embedsElement element = false →
      ∃ kept, keepElement settings typeName head element = pure kept
  | .scalar kind values, _ => ⟨_, by rw [keepElement]⟩
  | .nested decls, h => by
    rw [embedsElement] at h
    obtain ⟨kept, hkept⟩ :=
      exists_keepAll_eq (Naming.nestedType typeName head.source) decls h
    exact ⟨_, by rw [keepElement, hkept, pure_bind]⟩
  | .embedded _ _, h => by
    rw [embedsElement] at h
    cases h

end

end KeptField

namespace ModelDecl

variable {settings : SynthSettings} {model : ModelDecl}

/-- A model without embedded fields keeps what it keeps on its own. -/
theorem keep_eq (h : model.embeds = false) : model.keep settings = pure (model.kept settings) := by
  obtain ⟨fields, hfields⟩ := KeptField.exists_keepAll_eq settings (Naming.sanitize model.name)
    model.ownFields (FieldDecl.embedsAll_filter h _)
  have hkeep : model.keep settings = pure ⟨Naming.sanitize model.name, fields⟩ := by
    rw [keep, hfields, pure_bind]
  rw [kept, hkeep]
  rfl

theorem embeddedTypes_eq (h : model.embeds = false) : model.embeddedTypes settings = [] := by
  rw [embeddedTypes, keep_eq h]
  rfl

end ModelDecl

namespace Run

variable (run : Run) {models : List ModelDecl}

theorem kept_eq (h : ∀ model ∈ models, model.embeds = false) :
    run.kept models = models.map fun model => model.kept run.settings := by
  have hmapM : models.mapM (ModelDecl.keep run.settings) =
      pure (models.map fun model => model.kept run.settings) := by
    induction models with
    | nil => rfl
    | cons model rest ih =>
      obtain ⟨hmodel, hrest⟩ := List.forall_mem_cons.1 h
      rw [List.mapM_cons, ModelDecl.keep_eq hmodel, ih hrest, pure_bind, pure_bind]
      rfl
  rw [kept, hmapM]
  rfl

/-! ### Names of separate models -/

/-- The names of the types that a model makes below its root, but for inputs. -/
def innerNames (model : ModelDecl) : List String :=
  (model.kept run.settings).objectNames ++ (model.kept run.settings).enumNames
    ++ (model.kept run.settings).connectionNames

/-- The names of the types that a model makes, but for inputs. -/
def ownNames (model : ModelDecl) : List String := model.rootName :: run.innerNames model

variable {run}

theorem mem_typeNames_iff_inner {model : ModelDecl} {name : String} : name ∈ run.typeNames model ↔
    name ∈ run.innerNames model ∨ name ∈ (run.layOut [model]).inputs.keys :=
  List.mem_append

theorem mem_innerNames_of_object {model : ModelDecl} {name : String}
    (h : name ∈ (model.kept run.settings).objectNames) : name ∈ run.innerNames model :=
  List.mem_append_left _ (List.mem_append_left _ h)

/-- The names that a run makes, model by model. -/
theorem perm_generatedNames (h : ∀ model ∈ models, model.embeds = false) :
    (run.generatedNames models).Perm
      (models.flatMap run.ownNames ++ (run.layOut models).inputs.keys) := by
  have hroots : models.map (fun model => Naming.sanitize model.name) =
      models.flatMap fun model => [model.rootName] := List.map_eq_flatMap
  rw [generatedNames, kept_eq run h, List.flatMap_map, List.flatMap_map, List.flatMap_map, hroots]
  refine List.Perm.append_right _ ?_
  refine (((List.flatMap_append_perm models _ _).append_right _).append_right _).trans ?_
  refine ((List.flatMap_append_perm models _ _).append_right _).trans ?_
  exact List.flatMap_append_perm models _ _

/-- Runs with the same settings make the same names. -/
theorem generatedNames_congr {other : Run} (h : other.settings = run.settings)
    (models : List ModelDecl) : other.generatedNames models = run.generatedNames models := by
  rw [generatedNames, generatedNames, layOut_eq_marked run other h, kept, kept, h]
  rfl

variable (run models) in
/-- Models without embedded fields that make different names, and whose references aim at each
other. -/
structure Plain : Prop where
  embeds : ∀ model ∈ models, model.embeds = false
  names : (run.generatedNames models).Nodup
  listed : ∀ model ∈ models, run.Listed models model

section Plain

variable (h : run.Plain models)

include h

theorem Plain.nodup_ownNames : (models.flatMap run.ownNames).Nodup ∧
    ∀ name ∈ models.flatMap run.ownNames, name ∉ (run.layOut models).inputs.keys := by
  obtain ⟨hown, -, hinputs⟩ :=
    List.nodup_append.1 ((perm_generatedNames h.embeds).nodup_iff.1 h.names)
  exact ⟨hown, fun name hname hinput => hinputs name hname name hinput rfl⟩

theorem Plain.nodup : models.Nodup := by
  obtain ⟨hconnections, -, -⟩ := List.nodup_append.1 h.names
  obtain ⟨henums, -, -⟩ := List.nodup_append.1 hconnections
  obtain ⟨hobjects, -, -⟩ := List.nodup_append.1 henums
  exact List.Nodup.of_map _ (List.nodup_append.1 hobjects).1

/-- A name is made by one model only. -/
theorem Plain.eq_of_mem {model other : ModelDecl} (hmodel : model ∈ models)
    (hother : other ∈ models) {name : String} (hname : name ∈ run.ownNames model)
    (hname' : name ∈ run.ownNames other) : model = other :=
  eq_of_mem_of_nodup_flatMap h.nodup_ownNames.1 hmodel hother hname hname'

theorem Plain.rootName_notMem_inner {model other : ModelDecl} (hmodel : model ∈ models)
    (hother : other ∈ models) : model.rootName ∉ run.innerNames other := by
  intro hmem
  obtain rfl := h.eq_of_mem hmodel hother (List.mem_cons_self ..) (List.mem_cons_of_mem _ hmem)
  exact (List.nodup_cons.1 ((List.nodup_flatMap.1 h.nodup_ownNames.1).1 model hmodel)).1 hmem

/-- The fields of a model mention no object type of another one. -/
theorem Plain.words_free {model other : ModelDecl} (hmodel : model ∈ models)
    (hother : other ∈ models) (hne : model ≠ other) {name : String}
    (hname : (run.vocabulary model).objects name) :
    name ∉ (other.kept run.settings).objectNames := by
  intro hmem
  have hinner := mem_innerNames_of_object hmem
  rcases hname with hown | ⟨slot, hslot, rfl⟩
  · exact hne (h.eq_of_mem hmodel hother
      (List.mem_cons_of_mem _ (mem_innerNames_of_object hown)) (List.mem_cons_of_mem _ hinner))
  · obtain ⟨target, htarget, hname⟩ := List.mem_map.1 (h.listed model hmodel slot hslot)
    rw [← hname] at hinner
    exact h.rootName_notMem_inner htarget hother hinner

theorem Plain.strangers : models.Pairwise run.Strangers := by
  refine h.nodup.pairwise_of_forall_ne fun model hmodel other hother hne => ?_
  refine ⟨fun _ => h.words_free hmodel hother hne, fun _ => h.words_free hother hmodel hne.symm, ?_⟩
  rw [ModelDecl.embeddedTypes_eq (h.embeds model hmodel)]
  exact fun _ hname => absurd hname List.not_mem_nil

/-- The inputs of a model are among those of the run. -/
theorem Plain.mem_inputs {model : ModelDecl} (hmodel : model ∈ models) {name : String}
    (hname : name ∈ (run.layOut [model]).inputs.keys) : name ∈ (run.layOut models).inputs.keys := by
  rw [layOut_eq h.strangers, Arena.mem_inputs_join]
  exact ⟨_, List.mem_map_of_mem hmodel, hname⟩

theorem Plain.input_notMem {model other : ModelDecl} (hmodel : model ∈ models)
    (hother : other ∈ models) {name : String} (hname : name ∈ (run.layOut [model]).inputs.keys) :
    name ∉ run.ownNames other := fun hmem =>
  h.nodup_ownNames.2 name (List.mem_flatMap.2 ⟨other, hother, hmem⟩) (h.mem_inputs hmodel hname)

theorem Plain.rootName_notMem {model other : ModelDecl} (hmodel : model ∈ models)
    (hother : other ∈ models) : model.rootName ∉ run.typeNames other := by
  rw [mem_typeNames_iff_inner, not_or]
  exact ⟨h.rootName_notMem_inner hmodel hother,
    fun hinput => h.input_notMem hother hmodel hinput (List.mem_cons_self ..)⟩

/-- The inputs of two models mirror different object types. -/
theorem Plain.inputs_free {model other : ModelDecl} (hmodel : model ∈ models)
    (hother : other ∈ models) (hne : model ≠ other) {name : String}
    (hname : name ∈ (run.layOut [model]).inputs.keys) :
    name ∉ (run.layOut [other]).inputs.keys := by
  intro hname'
  obtain ⟨object, hobject, heq⟩ := (tidy_layOut run model).1.mirrored _ hname
  obtain ⟨object', hobject', heq'⟩ := (tidy_layOut run other).1.mirrored _ hname'
  obtain rfl := Naming.inputType_inj (heq.symm.trans heq')
  rw [mem_objects_layOut_singleton] at hobject hobject'
  exact hne (h.eq_of_mem hmodel hother
    (List.mem_cons_of_mem _ (mem_innerNames_of_object hobject))
    (List.mem_cons_of_mem _ (mem_innerNames_of_object hobject')))

/-- Models without embedded fields that make different names are separate. -/
theorem Plain.separate : run.Separate models where
  strangers := h.strangers
  apart := by
    refine h.nodup.pairwise_of_forall_ne fun model hmodel other hother hne => ⟨?_, ?_⟩
    · intro name hname hname'
      rw [List.mem_cons, mem_typeNames_iff_inner, ← or_assoc, ← List.mem_cons] at hname hname'
      rcases hname with hname | hname <;> rcases hname' with hname' | hname'
      · exact hne (h.eq_of_mem hmodel hother hname hname')
      · exact h.input_notMem hother hmodel hname' hname
      · exact h.input_notMem hmodel hother hname hname'
      · exact h.inputs_free hmodel hother hne hname hname'
    · rw [ModelDecl.embeddedTypes_eq (h.embeds model hmodel)]
      exact fun _ hname => absurd hname List.not_mem_nil

end Plain

end Run

/-! ### What a root reaches -/

namespace TypeGraph

/-- The root of a name with the types that it reaches, in order of discovery. -/
def rootTypes? (graph : TypeGraph) (name : String) : Option (ObjectType × List NamedType) :=
  (graph.model? name).map fun root => (root, (dependentsOf root graph.types).map Shared.value)

/-- Another mark changes the root and nothing that it reaches. -/
theorem rootTypes?_markedBy (run : Run) (graph : TypeGraph) (name : String) :
    (graph.markedBy run).rootTypes? name =
      (graph.rootTypes? name).map fun found => (found.1.withIdentity run.identity, found.2) := by
  rw [rootTypes?, rootTypes?, model?_markedBy, Option.map_map, Option.map_map]
  congr 1
  funext root
  have htypes : ∀ name, typeOf? (graph.markedBy run).types name = typeOf? graph.types name :=
    fun name => graph.type?_markedBy run name
  exact congrArg (Prod.mk _) (dependentsOf_congr (P := fun _ => True) (fun name _ => htypes name)
    (fun _ _ _ _ _ _ => trivial) fun _ _ => trivial)

end TypeGraph

namespace Run

variable (run : Run)

/-- Models without embedded fields around a given one, which make different names; no nested type of
the others has a name that every schema knows. -/
structure Around (model : ModelDecl) (models : List ModelDecl) : Prop where
  mem : model ∈ models
  embeds : ∀ other ∈ models, other.embeds = false
  names : (run.generatedNames models).Nodup
  builtIn : ∀ other ∈ models, other ≠ model → ∀ name ∈ (other.kept run.settings).objectNames,
    Arguments.isBuiltIn name = false

theorem model?_graphOf_alone {run : Run} {model : ModelDecl} {root : ObjectType}
    (hroot : (run.alone model).roots.get? model.rootName = some root) :
    (run.graphOf [model] (run.alone model)).model? model.rootName = some root :=
  (model?_graphOf run [model] _ (List.mem_singleton_self _)).trans hroot

section Around

variable {run : Run} {model : ModelDecl} {models : List ModelDecl} {graph : TypeGraph}
  (h : run.Around model models)

include h

/-- When a run succeeds, the references of its models aim at models. -/
theorem Around.plain (hok : run.synthesize models = .ok graph) : run.Plain models where
  embeds := h.embeds
  names := h.names
  listed other hother slot hslot := by
    obtain ⟨-, arena, hresolve, -⟩ := synthesize_eq_ok_iff.1 hok
    refine (Arena.resolve_eq_ok_iff.1 hresolve).1 slot ?_
    rw [(run.holds models).pending, kept_eq run h.embeds, List.flatMap_map]
    exact List.mem_flatMap.2 ⟨other, hother, hslot⟩

/-- A type of another model has no name that every schema knows. -/
theorem Around.isBuiltIn_eq_false {other : ModelDecl} (hother : other ∈ models)
    (hne : other ≠ model) {name : String} (hname : name ∈ run.typeNames other) :
    Arguments.isBuiltIn name = false := by
  rcases mem_typeNames.1 hname with hobject | henum | hconnection | hinput
  · exact h.builtIn other hother hne name hobject
  · obtain ⟨parent, field, rfl⟩ := @exists_enumType run [other] name (by
      rwa [kept_singleton, List.flatMap_singleton])
    exact Arguments.isBuiltIn_append (by decide) _
  · obtain ⟨slot, -, rfl⟩ := List.mem_map.1 hconnection
    exact Arguments.isBuiltIn_append (by decide) _
  · obtain ⟨object, -, rfl⟩ := (tidy_layOut run other).1.mirrored _ hinput
    exact Arguments.isBuiltIn_append (by decide) _

/-- What the types of a model mention stands for the same among all models as it does alone. -/
theorem Around.get?_of_scope (hplain : run.Plain models) {name : String}
    (hscope : run.Scope model name) :
    (run.layOut models).settled.namedTypes.get? name = (run.alone model).namedTypes.get? name := by
  rw [hplain.separate.settled_eq]
  refine Option.ext fun type => hplain.separate.get?_namedTypes_join.trans
    ⟨fun hfound => ?_, fun hget => ⟨model, h.mem, hget⟩⟩
  obtain ⟨other, hother, hget⟩ := hfound
  by_cases hne : other = model
  · exact hne ▸ hget
  have hname := (name_of_get? hget).2
  rcases hscope with hown | ⟨slot, hslot, rfl⟩ | hbuiltIn
  · exact absurd (List.mem_cons_of_mem _ hname)
      ((hplain.separate.apart.forall h.mem hother (Ne.symm hne)).names name
        (List.mem_cons_of_mem _ hown))
  · obtain ⟨target, htarget, heq⟩ := List.mem_map.1 (hplain.listed model h.mem slot hslot)
    rw [← heq] at hname
    exact absurd hname (hplain.rootName_notMem htarget hother)
  · rw [h.isBuiltIn_eq_false hother hne hname] at hbuiltIn
    cases hbuiltIn

/-- Among other models a root reaches what it reaches alone. -/
theorem Around.rootTypes?_eq (hok : run.synthesize models = .ok graph) :
    graph.rootTypes? model.rootName =
      (run.graphOf [model] (run.alone model)).rootTypes? model.rootName := by
  have hplain := h.plain hok
  obtain ⟨-, arena, hresolve, -, -, rfl⟩ := synthesize_eq_ok_iff.1 hok
  obtain ⟨-, rfl⟩ := Arena.resolve_eq_ok_iff.1 hresolve
  obtain ⟨root, hroot, -⟩ := run.exists_root model
  have hall : (run.graphOf models (run.layOut models).settled).model? model.rootName =
      some root := by
    refine (model?_graphOf run models _ (List.mem_map.2 ⟨model, h.mem, rfl⟩)).trans ?_
    rw [hplain.separate.settled_eq]
    exact hplain.separate.get?_roots_join.2 ⟨model, h.mem, hroot⟩
  have halone := model?_graphOf_alone hroot
  have hsame : ∀ name, run.Scope model name →
      typeOf? (run.graphOf [model] (run.alone model)).types name =
        typeOf? (run.graphOf models (run.layOut models).settled).types name := fun name hscope =>
    (type?_graphOf run [model] _ name).trans ((h.get?_of_scope hplain hscope).symm.trans
      (type?_graphOf run models _ name).symm)
  have htypes := dependentsOf_congr hsame
    (fun name type _ hget => scope_of_type ((type?_graphOf run [model] _ name).symm.trans hget))
    (scope_of_holder (show (run.alone model).holder? (.root model.rootName) = _ from hroot))
  rw [TypeGraph.rootTypes?, TypeGraph.rootTypes?, hall, halone, Option.map_some, Option.map_some,
    htypes]

end Around

/-- Two runs with the same settings find the same root and the same types for a model, in the same
order, whatever the other models of the two runs are: only the mark is that of the run. -/
theorem rootTypes?_of_synthesize (run other : Run) (hsettings : other.settings = run.settings)
    {model : ModelDecl} {models others : List ModelDecl} {graph graph' : TypeGraph}
    (hmodels : run.Around model models) (hothers : other.Around model others)
    (hgraph : run.synthesize models = .ok graph) (hgraph' : other.synthesize others = .ok graph') :
    ∃ root types, graph.rootTypes? model.rootName = some (root, types) ∧
      graph'.rootTypes? model.rootName = some (root.withIdentity other.identity, types) := by
  have hothers : run.Around model others :=
    ⟨hothers.mem, hothers.embeds, generatedNames_congr hsettings others ▸ hothers.names,
      hsettings ▸ hothers.builtIn⟩
  rw [synthesize_eq_markedBy run other hsettings] at hgraph'
  obtain ⟨unmarked, hunmarked, rfl⟩ := map_eq_ok_iff.1 hgraph'
  obtain ⟨root, hroot, -⟩ := run.exists_root model
  obtain ⟨found, hfound⟩ : ∃ found,
      (run.graphOf [model] (run.alone model)).rootTypes? model.rootName = some found :=
    ⟨_, congrArg (Option.map _) (model?_graphOf_alone hroot)⟩
  refine ⟨found.1, found.2, (hmodels.rootTypes?_eq hgraph).trans hfound, ?_⟩
  rw [TypeGraph.rootTypes?_markedBy, hothers.rootTypes?_eq hunmarked, hfound, Option.map_some]

end Run

namespace ModelDecl

/-- A model with nothing below its root. -/
def user : ModelDecl where
  key := "users"
  name := "User"
  fields := [.scalar "name" .string]

/-- A model with a list of a shape that refers back to it. -/
def reader : ModelDecl where
  key := "readers"
  name := "Reader"
  fields := [.reference "guardian" "User", .list "loans" (.nested
    [.enumeration "state" ["open", "returned"], .references "witnesses" "Reader"])]

/-- A model with a shape whose type has the name of the enum of sort directions. -/
def sort : ModelDecl where
  key := "sorts"
  name := "Sort"
  fields := [.nested "direction" [.scalar "text" .string]]

end ModelDecl

/-- The reader has the same types beside two models of one name that are quite different. -/
theorem Run.rootTypes?_reader : ∃ graph graph' root types,
    (Run.mk {} ⟨0⟩ 0).synthesize [.reader, .user] = .ok graph ∧
      (Run.mk {} ⟨1⟩ 1).synthesize [.tidyUser, .reader] = .ok graph' ∧
      graph.rootTypes? "Reader" = some (root, types) ∧
      graph'.rootTypes? "Reader" = some (root.withIdentity ⟨1⟩, types) ∧
      types.map NamedType.name = ["ReaderLoansInput", "ReaderLoansStateEnum", "ReaderLoans",
        "ReaderLoansWitnessesConnection"] := by
  have haround : (Run.mk {} ⟨0⟩ 0).Around .reader [.reader, .user] :=
    ⟨List.mem_cons_self .., by decide +kernel, by decide +kernel, by decide +kernel⟩
  have haround' : (Run.mk {} ⟨1⟩ 1).Around .reader [.tidyUser, .reader] :=
    ⟨List.mem_cons_of_mem _ (List.mem_singleton_self _), by decide +kernel, by decide +kernel,
      by decide +kernel⟩
  let result := (Run.mk {} ⟨0⟩ 0).synthesize [.reader, .user]
  obtain ⟨graph, hok⟩ : ∃ graph, result = .ok graph := exists_eq_ok (by decide +kernel)
  obtain ⟨graph', hok'⟩ : ∃ graph, (Run.mk {} ⟨1⟩ 1).synthesize [.tidyUser, .reader] = .ok graph :=
    exists_eq_ok (by decide +kernel)
  obtain ⟨root, types, hfound, hfound'⟩ :=
    rootTypes?_of_synthesize (Run.mk {} ⟨0⟩ 0) (Run.mk {} ⟨1⟩ 1) rfl haround haround' hok hok'
  have hnames : (result.toOption.bind fun graph => graph.rootTypes? "Reader").map
      (fun found => found.2.map NamedType.name) = some ["ReaderLoansInput", "ReaderLoansStateEnum",
        "ReaderLoans", "ReaderLoansWitnessesConnection"] := by
    decide +kernel
  rw [hok] at hnames
  refine ⟨graph, graph', root, types, hok, hok', hfound, hfound', ?_⟩
  exact Option.some.inj ((congrArg (Option.map _) hfound).symm.trans hnames)

/-- The user alone reaches no type. Beside a model with a shape of the right name it reaches that
shape, though all names are different. -/
theorem Run.rootTypes?_user_sort :
    (∀ model ∈ [ModelDecl.user, .sort], model.embeds = false) ∧
      ((Run.mk {} ⟨0⟩ 0).generatedNames [.user]).Nodup ∧
      ((Run.mk {} ⟨0⟩ 0).generatedNames [.user, .sort]).Nodup ∧
      ∃ graph graph', (Run.mk {} ⟨0⟩ 0).synthesize [.user] = .ok graph ∧
        (Run.mk {} ⟨0⟩ 0).synthesize [.user, .sort] = .ok graph' ∧
        (graph.rootTypes? "User").map (fun found => found.2.map NamedType.name) = some [] ∧
        (graph'.rootTypes? "User").map (fun found => found.2.map NamedType.name) =
          some ["SortDirection"] := by
  let result := (Run.mk {} ⟨0⟩ 0).synthesize [.user]
  let result' := (Run.mk {} ⟨0⟩ 0).synthesize [.user, .sort]
  obtain ⟨graph, hok⟩ : ∃ graph, result = .ok graph := exists_eq_ok (by decide +kernel)
  obtain ⟨graph', hok'⟩ : ∃ graph, result' = .ok graph := exists_eq_ok (by decide +kernel)
  have halone : (result.toOption.bind fun graph => graph.rootTypes? "User").map
      (fun found => found.2.map NamedType.name) = some [] := by
    decide +kernel
  have hbeside : (result'.toOption.bind fun graph => graph.rootTypes? "User").map
      (fun found => found.2.map NamedType.name) = some ["SortDirection"] := by
    decide +kernel
  rw [hok] at halone
  rw [hok'] at hbeside
  exact ⟨by decide +kernel, by decide +kernel, by decide +kernel, graph, graph', hok, hok', halone,
    hbeside⟩

end ModelGraph
