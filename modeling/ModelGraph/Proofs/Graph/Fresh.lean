import ModelGraph.Proofs.Graph.Layout
import ModelGraph.Proofs.OrderedMap
import ModelGraph.Proofs.Success

/-!
# Runs that reuse nothing

A run that reuses nothing lays out its models one after another in an empty arena, resolves the
slots left behind, and freezes the arena into a graph, which is validated.

## Main definitions

- `Run.layOut` — the arena after the first phase
- `Run.graphOf` — the graph of an arena

## Main statements

- `Run.assemble_none`, `Run.synthesize_eq` — the phases of a run that reuses nothing
- `Run.synthesize_eq_ok_iff` — when such a run succeeds
-/

namespace ModelGraph

namespace Run

/-- The arena after models are laid out one after another. -/
def layOut (run : Run) (models : List ModelDecl) : Arena :=
  ((models.forM (Arena.addModel run.settings run.identity)).run {}).2

/-- The graph of an arena when no types are reused. -/
def graphOf (run : Run) (models : List ModelDecl) (arena : Arena) : TypeGraph :=
  (run.finish arena models ∅).1

variable (run : Run) (models : List ModelDecl)

/-- Assembling models without types to reuse lays all of them out. -/
theorem assemble_none : run.assemble (models.map fun model => (model, none)) = (do
    let arena ← (run.layOut models).resolve (modelTypeNames models)
    arena.checkResolved
    pure (run.finish arena models ∅)) := by
  have hdeclared : (models.map fun model => (model, (none : Option ModelTypes))).map Prod.fst
      = models := by
    simp [Function.comp_def]
  have hfresh : ((models.map fun model => (model, (none : Option ModelTypes))).filter
      fun entry => entry.2.isNone).map Prod.fst = models := by
    rw [List.filter_eq_self.2 (by simp)]
    exact hdeclared
  have hreused : (models.map fun model => (model, (none : Option ModelTypes))).filterMap
      (fun entry => entry.2.map fun types => (entry.1.name, types)) = [] := by
    simp [List.filterMap_map]
  simp only [assemble, hdeclared, hfresh, hreused]
  rfl

/-- The phases of a run that reuses nothing. -/
theorem synthesize_eq : run.synthesize models = (do
    checkKeys [] models
    let arena ← (run.layOut models).resolve (modelTypeNames models)
    arena.checkResolved
    (run.graphOf models arena).validate
    pure (run.graphOf models arena)) := by
  rw [synthesize, assemble_none]
  simp only [bind_assoc, pure_bind]
  rfl

/-- A run that reuses nothing succeeds when no phase fails, with the graph of its arena. -/
theorem synthesize_eq_ok_iff {run : Run} {models : List ModelDecl} {graph : TypeGraph} :
    run.synthesize models = .ok graph ↔ checkKeys [] models = .ok () ∧ ∃ arena,
      (run.layOut models).resolve (modelTypeNames models) = .ok arena ∧
        arena.checkResolved = .ok () ∧ graph.validate = .ok () ∧
          run.graphOf models arena = graph := by
  simp only [synthesize_eq, bind_eq_ok_iff]
  constructor
  · rintro ⟨_, hkeys, arena, hresolve, _, hcheck, _, hvalid, hgraph⟩
    cases hgraph
    exact ⟨hkeys, arena, hresolve, hcheck, hvalid, rfl⟩
  · rintro ⟨hkeys, arena, hresolve, hcheck, hvalid, rfl⟩
    exact ⟨(), hkeys, arena, hresolve, (), hcheck, (), hvalid, rfl⟩

end Run

end ModelGraph
