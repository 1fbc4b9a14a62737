import ModelGraph.Proofs.Graph.Fresh
import ModelGraph.Proofs.Graph.Places

/-!
# The mark of a run

A run puts its caller's mark on the roots it makes and its own number on every shared value. It
reads neither, so the graph of another run with the same settings differs in these two only.

## Main definitions

- `Arena.marked` — an arena with another mark on its roots
- `TypeGraph.markedBy` — a graph as another run would have made it

## Main statements

- `Run.synthesize_eq_markedBy` — runs with the same settings make the same graph but for the marks
-/

namespace ModelGraph

namespace Arena

/-- An arena with another mark on its roots. -/
def marked (identity : Identity) (arena : Arena) : Arena :=
  { arena with roots := arena.roots.map fun root => root.withIdentity identity }

variable (identity : Identity)

/-! ### Laying out -/

theorem addModel_marked (settings : SynthSettings) (other : Identity) (model : ModelDecl)
    (arena : Arena) :
    (addModel settings identity model).run (arena.marked identity) =
      ((), ((addModel settings other model).run arena).2.marked identity) := by
  have hfields := fields_withRoots settings (Naming.sanitize model.name) (Naming.sanitize model.name) ""
    (model.fields.filter fun decl => !isIdentityDecl decl) ∅ arena (arena.marked identity)
  rw [run_addModel, run_addModel, declared]
  change (fields _ _ _ _ _ _).run (arena.marked identity) = _ at hfields
  rw [hfields]
  simp only [marked, withRoots, OrderedMap.map_insert]
  rfl

theorem forM_addModel_marked (settings : SynthSettings) (other : Identity)
    (models : List ModelDecl) (arena : Arena) :
    (models.forM (addModel settings identity)).run (arena.marked identity) =
      ((), ((models.forM (addModel settings other)).run arena).2.marked identity) := by
  induction models generalizing arena with
  | nil => rfl
  | cons model rest ih =>
    change StateT.run (addModel settings identity model >>= fun _ => _) _ =
      ((), ((StateT.run (addModel settings other model >>= fun _ => _) arena).2.marked identity))
    rw [StateT.run_bind, StateT.run_bind, addModel_marked identity settings other]
    exact ih _

/-! ### Resolving -/

theorem fieldAt?_marked (arena : Arena) (place : FieldPlace) :
    (arena.marked identity).fieldAt? place = arena.fieldAt? place := by
  obtain ⟨holder, name⟩ := place
  cases holder with
  | root root =>
    simp only [fieldAt?, holder?, marked, OrderedMap.get?_map, Option.bind_map]
    rfl
  | object object => rfl

theorem locate_marked (arena : Arena) (holder : Holder) (names : List String) :
    (arena.marked identity).locate holder names = arena.locate holder names := by
  induction names generalizing holder with
  | nil => rfl
  | cons name rest ih =>
    cases rest with
    | nil => rfl
    | cons next rest => simp only [locate, fieldAt?_marked, ih]

theorem retypeAt_marked (arena : Arena) (place : FieldPlace) (type : FieldType) :
    (arena.marked identity).retypeAt place type = (arena.retypeAt place type).marked identity := by
  obtain ⟨holder, name⟩ := place
  cases holder with
  | root root =>
    simp only [retypeAt, holder?, marked, OrderedMap.get?_map]
    cases arena.roots.get? root with
    | none => rfl
    | some type' =>
      dsimp only [Option.map_some, ObjectType.withIdentity]
      cases type'.fields.get? name with
      | none => rfl
      | some field =>
        simp only [setHolder, OrderedMap.map_insert]
        rfl
  | object object =>
    have hobjects : (arena.marked identity).objects = arena.objects := rfl
    simp only [retypeAt, holder?, hobjects]
    cases arena.objects.get? object with
    | none => rfl
    | some type' =>
      dsimp only
      cases type'.fields.get? name <;> rfl

theorem resolveSlot_marked (modelNames : OrderedMap String String) (arena : Arena)
    (slot : ReferenceSlot) :
    resolveSlot modelNames (arena.marked identity) slot =
      (resolveSlot modelNames arena slot).map (marked identity) := by
  have hreplace : ∀ (other : Arena) (type : FieldType) (names : List String),
      (other.marked identity).replaceAlong slot.owner none type names =
        (other.replaceAlong slot.owner none type names).marked identity := by
    intro other type names
    rw [replaceAlong_eq, replaceAlong_eq, locate_marked]
    cases other.locate (startOf slot.owner none) names with
    | none => rfl
    | some place => exact retypeAt_marked identity other place type
  rw [resolveSlot, resolveSlot]
  cases modelNames.get? slot.target with
  | none => rfl
  | some node =>
    dsimp only [Except.map]
    cases slot.cardinality with
    | single => exact congrArg Except.ok (hreplace arena _ _)
    | plural => exact congrArg Except.ok (hreplace (arena.addConnection slot node) _ _)

theorem resolve_marked (modelNames : OrderedMap String String) (arena : Arena) :
    (arena.marked identity).resolve modelNames =
      (arena.resolve modelNames).map (marked identity) := by
  have hfold : ∀ (slots : List ReferenceSlot) (other : Arena),
      slots.foldlM (resolveSlot modelNames) (other.marked identity) =
        (slots.foldlM (resolveSlot modelNames) other).map (marked identity) := by
    intro slots
    induction slots with
    | nil => exact fun _ => rfl
    | cons slot rest ih =>
      intro other
      rw [List.foldlM_cons, List.foldlM_cons, resolveSlot_marked]
      cases resolveSlot modelNames other slot with
      | error e => rfl
      | ok next => exact ih next
  exact hfold arena.pending { arena with pending := [] }

theorem checkResolved_marked (arena : Arena) :
    (arena.marked identity).checkResolved = arena.checkResolved := by
  simp only [checkResolved, marked, OrderedMap.values_map, List.forM_eq_forM, List.forM_append,
    List.forM_map]
  rfl

end Arena

/-! ## Graphs -/

namespace TypeGraph

/-- A graph as another run would have made it: with that run's mark and number. -/
def markedBy (run : Run) (graph : TypeGraph) : TypeGraph where
  identity := run.identity
  models := graph.models.map fun root =>
    ⟨{ root.origin with run := run.number }, root.value.withIdentity run.identity⟩
  types := graph.types.map fun type => ⟨{ type.origin with run := run.number }, type.value⟩

variable (run : Run) (graph : TypeGraph)

theorem model?_markedBy (name : String) : (graph.markedBy run).model? name =
    (graph.model? name).map fun root => root.withIdentity run.identity := by
  simp only [model?, markedBy, OrderedMap.get?_map, Option.map_map]
  rfl

theorem type?_markedBy (name : String) : (graph.markedBy run).type? name = graph.type? name := by
  simp only [type?, markedBy, OrderedMap.get?_map, Option.map_map]
  rfl

theorem isNone_object?_markedBy (name : String) :
    ((graph.markedBy run).object? name).isNone = (graph.object? name).isNone := by
  rw [object?, object?, model?_markedBy, type?_markedBy]
  cases graph.model? name <;> rfl

theorem enum?_markedBy (name : String) : (graph.markedBy run).enum? name = graph.enum? name := by
  rw [enum?, enum?, type?_markedBy]

theorem input?_markedBy (name : String) : (graph.markedBy run).input? name = graph.input? name := by
  rw [input?, input?, type?_markedBy]

theorem connection?_markedBy (name : String) :
    (graph.markedBy run).connection? name = graph.connection? name := by
  rw [connection?, connection?, type?_markedBy]

theorem danglingType?_markedBy (type : FieldType) :
    (graph.markedBy run).danglingType? type = graph.danglingType? type := by
  cases type with
  | object name => simp only [danglingType?, isNone_object?_markedBy]
  | enum name => rw [danglingType?, danglingType?, enum?_markedBy]
  | connection name =>
    simp only [danglingType?, connection?_markedBy, model?_markedBy, Option.isNone_map]
  | _ => rfl

theorem isInputName_markedBy (name : String) :
    (graph.markedBy run).isInputName name = graph.isInputName name := by
  rw [isInputName, isInputName, enum?_markedBy, input?_markedBy]

theorem checkField_markedBy : (graph.markedBy run).checkField = graph.checkField := by
  funext owner field
  simp only [checkField, danglingType?_markedBy, isInputName_markedBy]

theorem validate_markedBy : (graph.markedBy run).validate = graph.validate := by
  simp only [validate, objects, checkField_markedBy, List.forM_eq_forM, List.forM_append]
  simp only [markedBy, OrderedMap.values_map, List.forM_map, List.filterMap_map]
  rfl

end TypeGraph

/-! ## Runs -/

namespace Run

section Graph

variable {run other : Run}

/-- Placing models among other roots and types places the others of them. -/
theorem foldl_place_map (f : Shared ObjectType → Shared ObjectType)
    (g : Shared NamedType → Shared NamedType) (models : List ModelDecl)
    (roots placed : OrderedMap String (Shared ObjectType))
    (types : OrderedMap String (Shared NamedType)) :
    models.foldl (place ∅) (roots.map f, placed.map f, types.map g) =
      let (roots, placed, types) := models.foldl (place ∅) (roots, placed, types)
      (roots.map f, placed.map f, types.map g) := by
  induction models generalizing roots placed types with
  | nil => rfl
  | cons model rest ih =>
    have hstep : place ∅ (roots.map f, placed.map f, types.map g) model =
        let (roots, placed, types) := place ∅ (roots, placed, types) model
        (roots.map f, placed.map f, types.map g) := by
      simp only [place, OrderedMap.get?_map, OrderedMap.get?_empty]
      cases roots.get? (Naming.sanitize model.name) with
      | none => rfl
      | some root =>
        simp only [Option.map_some, OrderedMap.map_insert, OrderedMap.map_erase]
    rw [List.foldl_cons, List.foldl_cons, hstep]
    exact ih _ _ _

theorem graphOf_marked (models : List ModelDecl) (arena : Arena) :
    other.graphOf models (arena.marked other.identity) =
      (run.graphOf models arena).markedBy other := by
  let f : Shared ObjectType → Shared ObjectType := fun root =>
    ⟨{ root.origin with run := other.number }, root.value.withIdentity other.identity⟩
  let g : Shared NamedType → Shared NamedType := fun type =>
    ⟨{ type.origin with run := other.number }, type.value⟩
  have hroots : other.share .root (arena.marked other.identity).roots =
      (run.share .root arena.roots).map f := by
    refine OrderedMap.ext_entries ?_
    simp [share, Arena.marked, OrderedMap.map, f]
  have htypes : other.share .type (arena.marked other.identity).namedTypes =
      (run.share .type arena.namedTypes).map g := by
    refine OrderedMap.ext_entries ?_
    simp only [share, OrderedMap.map, List.map_map, g]
    rfl
  have hplaced := foldl_place_map f g models (run.share .root arena.roots) ∅
    (run.share .type arena.namedTypes)
  rw [graphOf, graphOf, finish, finish, hroots, htypes]
  change TypeGraph.mk other.identity (models.foldl (place ∅) (_, OrderedMap.map f ∅, _)).2.1
    (models.foldl (place ∅) (_, OrderedMap.map f ∅, _)).2.2 = _
  rw [hplaced]
  rfl

end Graph

/-- A run with the same settings lays out the same types, but for the mark. -/
theorem layOut_eq_marked (run other : Run) (h : other.settings = run.settings)
    (models : List ModelDecl) :
    other.layOut models = (run.layOut models).marked other.identity := by
  have hforM := Arena.forM_addModel_marked other.identity run.settings run.identity models {}
  rw [layOut, h]
  exact congrArg Prod.snd hforM

/-- A run with the same settings makes the same graph, but for the mark and the number of the run,
and fails alike. -/
theorem synthesize_eq_markedBy (run other : Run) (h : other.settings = run.settings)
    (models : List ModelDecl) :
    other.synthesize models = (run.synthesize models).map (TypeGraph.markedBy other) := by
  rw [synthesize_eq, synthesize_eq, layOut_eq_marked run other h, Arena.resolve_marked]
  cases checkKeys [] models with
  | error e => rfl
  | ok _ =>
    cases (run.layOut models).resolve (modelTypeNames models) with
    | error e => rfl
    | ok arena =>
      change (do
        (arena.marked other.identity).checkResolved
        (other.graphOf models (arena.marked other.identity)).validate
        pure (other.graphOf models (arena.marked other.identity))) = Except.map _ (do
          arena.checkResolved
          (run.graphOf models arena).validate
          pure (run.graphOf models arena))
      rw [Arena.checkResolved_marked, @graphOf_marked run other, TypeGraph.validate_markedBy]
      cases arena.checkResolved with
      | error e => rfl
      | ok _ => cases (run.graphOf models arena).validate <;> rfl

end Run

end ModelGraph
