import ModelGraph.Proofs.Cache.Traits

/-!
# Names that tell kinds

The name of an enum, an input or a connection tells its kind, and the edge of a connection goes with
the connection's name. This holds of the types of every run, so it holds of what callers leave in
caches that they share, and of all graphs that they get. In these graphs every type that is no model
stands under its own name, wherever it comes from.

## Main definitions

- `NamedType.Labelled` — a type whose name tells its kind
- `TypeGraph.Labelled` — a graph of such types, each under its own name

## Main statements

- `Run.labelled_namedTypes` — the types of a run are labelled
- `Run.labelled_of_synthesizeCached` — so are those of all graphs that callers get
-/

namespace ModelGraph

/-- A type whose name tells its kind. Objects may have any name. -/
def NamedType.Labelled : NamedType → Prop
  | .object _ => True
  | .enum type => ∃ parent field, type.name = Naming.enumType parent field
  | .input type => ∃ object, type.name = Naming.inputType object
  | .connection type => ∃ owner path, type.name = Naming.connectionType owner path ∧
      type.edge = Naming.edgeType owner path

/-- A graph whose types are labelled, and stand under their names. -/
def TypeGraph.Labelled (graph : TypeGraph) : Prop :=
  ∀ name type, graph.types.get? name = some type → type.value.Labelled ∧ type.value.name = name

namespace Run

/-- The types of a run are labelled. -/
theorem labelled_namedTypes (run : Run) (models : List ModelDecl) :
    (run.layOut models).settled.namedTypes.All NamedType.Labelled := by
  intro name type hget
  have hname : type.name = name := name_of_namedTypes hget
  have hpopulated := (run.populated models).settled
  rw [Arena.get?_namedTypes] at hget
  rcases Option.or_eq_some_iff.1 hget with hconnection | ⟨-, hget⟩
  · obtain ⟨connection, hfound, rfl⟩ := Option.map_eq_some_iff.1 hconnection
    obtain ⟨slot, -, -, rfl, -⟩ := run.exists_slot_of_connection models hfound
    exact ⟨slot.owner, slot.path, rfl, rfl⟩
  rcases Option.or_eq_some_iff.1 hget with hinput | ⟨-, hget⟩
  · obtain ⟨input, hfound, rfl⟩ := Option.map_eq_some_iff.1 hinput
    obtain ⟨object, heq⟩ := hpopulated.inputNames name (OrderedMap.mem_keys_of_get? hfound)
    exact ⟨object, hname.trans heq⟩
  rcases Option.or_eq_some_iff.1 hget with henum | ⟨-, hobject⟩
  · obtain ⟨enum, hfound, rfl⟩ := Option.map_eq_some_iff.1 henum
    obtain ⟨-, parent, field, heq⟩ := hpopulated.enums name enum hfound
    exact ⟨parent, field, hname.trans heq⟩
  · obtain ⟨object, -, rfl⟩ := Option.map_eq_some_iff.1 hobject
    trivial

/-- So every run labels its types, and a run asks nothing of the names of roots. -/
theorem labelled_traits : Traits (fun _ => True) NamedType.Labelled where
  roots _ _ _ _ _ := trivial
  types := labelled_namedTypes
  mark _ _ _ := trivial

end Run

/-- Whatever callers did to caches that they share, a call gets a labelled graph. -/
theorem Run.labelled_of_synthesizeCached {start : Caches} (hstart : start.Empty)
    (events : List Caches.Event) {run : Run} {now : Nat} {models : List ModelDecl}
    {graph : Shared TypeGraph}
    (h : (run.synthesizeCached now models (start.after events)).1 = .ok graph) :
    graph.value.Labelled :=
  (Run.labelled_traits.bear_of_synthesizeCached hstart events h).types

end ModelGraph
