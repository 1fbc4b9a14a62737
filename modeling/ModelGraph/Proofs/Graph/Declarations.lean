import ModelGraph.Proofs.Graph.Closed

/-!
# Which declaration a type is made of

The names of generated types are put together without separators, so declarations at different
places can ask for one name. An enum or an object type is then that of the last declaration which
asks, and a connection that of the first one. When no name is made twice, every declaration has the
type that it describes.

## Main definitions

- `Run.shapes`, `Run.enums`, `Run.pluralSlots` — the declarations of a run that ask for types
- `Run.Finds` — a graph with the last enum, the last object and the first connection of each name
- `Run.OwnTypes` — a graph in which every declaration has the type that it describes

## Main statements

- `Run.finds_and_own_of_synthesize` — which declaration each type of a graph is made of
-/

namespace ModelGraph

namespace Run

variable (run : Run) (models : List ModelDecl)

/-- The declarations of a run that ask for object types, in order. -/
def shapes : List KeptShape := (run.kept models).flatMap KeptModel.shapes

/-- The enums that the declarations of a run describe, in order. -/
def enums : List EnumType := (run.kept models).flatMap KeptModel.enums

/-- The references of a run that ask for connections, in order. -/
def pluralSlots : List ReferenceSlot :=
  ((run.kept models).flatMap KeptModel.slots).filter fun slot => slot.cardinality = .plural

/-- A graph that has, under every name, the last enum and the last shape that ask for it, and the
connection of the first plural reference that does. Roots go before other objects. -/
structure Finds (graph : TypeGraph) : Prop where
  enums : ∀ name, graph.enum? name = (run.enums models).reverse.find? fun type => type.name = name
  connections : ∀ name, graph.connection? name =
    ((run.pluralSlots models).find? fun slot =>
      Naming.connectionType slot.owner slot.path = name).map fun slot =>
        Arena.connectionOf slot (Naming.sanitize slot.target)
  objects : ∀ name type, name ∉ models.map (fun model => Naming.sanitize model.name) →
    graph.object? name = some type →
      ((run.shapes models).reverse.find? fun shape => shape.object = name).map KeptShape.outline =
        some type.outline

/-- A graph in which every declaration has the type that it describes. -/
structure OwnTypes (graph : TypeGraph) : Prop where
  enums : ∀ type ∈ run.enums models, graph.enum? type.name = some type
  connections : ∀ slot ∈ run.pluralSlots models,
    graph.connection? (Naming.connectionType slot.owner slot.path) =
      some (Arena.connectionOf slot (Naming.sanitize slot.target))
  objects : ∀ shape ∈ run.shapes models, ∃ type, graph.object? shape.object = some type ∧
    type.outline = shape.outline

/-- The outline of a finished type is that of the last shape of its name. -/
theorem outline_of_objects {name : String} {type : ObjectType}
    (h : (run.layOut models).settled.objects.get? name = some type) :
    ((run.shapes models).reverse.find? fun shape => shape.object = name).map KeptShape.outline =
      some type.outline := by
  obtain ⟨old, hold, houtline⟩ := Arena.exists_outline_settleAll
    (show (run.layOut models).settled.holder? (.object name) = some type from h)
  rw [houtline]
  exact (run.holds models).outline hold

theorem finds_graphOf : run.Finds models (run.graphOf models (run.layOut models).settled) where
  enums name := by
    rw [run.enum?_graphOf, (run.holds models).enums]
    exact OrderedMap.get?_ofList_map.trans Option.map_id'
  connections name := by
    rw [run.connection?_graphOf, Arena.settled, Arena.get?_connections_settleAll,
      (run.holds models).pending]
    change ((run.layOut models).connections.get? name).or _ = _
    rw [(run.holds models).connections, OrderedMap.get?_empty, Option.none_or]
    rfl
  objects name type hroot hget := by
    refine run.outline_of_objects models ?_
    rw [TypeGraph.object?, run.model?_graphOf_of_notMem models _ hroot, type?_graphOf] at hget
    split at hget
    · next hnone => cases hnone
    · split at hget
      · next htype =>
        cases hget
        exact Arena.get?_objects_of_namedTypes htype
      · cases hget

variable {run models} {graph : TypeGraph}

/-- With all names different, what is found for a declaration is what it describes. -/
theorem Finds.own (h : run.Finds models (run.graphOf models (run.layOut models).settled))
    (hdistinct : (run.generatedNames models).Nodup) :
    run.OwnTypes models (run.graphOf models (run.layOut models).settled) := by
  obtain ⟨hfour, -, -⟩ := List.nodup_append.1 hdistinct
  obtain ⟨hthree, hconnections, -⟩ := List.nodup_append.1 hfour
  obtain ⟨htwo, henums, -⟩ := List.nodup_append.1 hthree
  obtain ⟨-, hobjects, -⟩ := List.nodup_append.1 htwo
  rw [← map_name_flatMap_enums] at henums
  rw [← map_connectionType_flatMap_slots] at hconnections
  rw [← map_object_flatMap_shapes] at hobjects
  refine ⟨fun type htype => ?_, fun slot hslot => ?_, fun shape hshape => ?_⟩
  · rw [h.enums]
    exact find?_reverse_key_of_nodup henums htype
  · rw [h.connections]
    exact congrArg (Option.map _) (find?_key_of_nodup hconnections hslot)
  -- The name is that of an object type and of nothing else, so the graph finds one under it.
  · have hname : shape.object ∈ (run.kept models).flatMap KeptModel.objectNames := by
      rw [← map_object_flatMap_shapes]
      exact List.mem_map_of_mem hshape
    obtain ⟨hmodel, henum, hconnection, hinput⟩ :=
      (namesApart hdistinct).object_notMem _ hname
    obtain ⟨type, hobject⟩ :=
      run.exists_object?_graphOf models hname hmodel henum hconnection hinput
    have hfound := h.objects _ type hmodel hobject
    rw [shapes, find?_reverse_key_of_nodup hobjects hshape] at hfound
    exact ⟨type, hobject, (Option.some.inj hfound).symm⟩

/-- A type of a graph is that of the last declaration that asks for its name, and a connection that
of the first one. When no name is made twice, every declaration has the type that it describes. -/
theorem finds_and_own_of_synthesize (h : run.synthesize models = .ok graph) :
    run.Finds models graph ∧
      ((run.generatedNames models).Nodup → run.OwnTypes models graph) := by
  obtain ⟨-, arena, hresolve, -, -, rfl⟩ := synthesize_eq_ok_iff.1 h
  obtain ⟨-, rfl⟩ := Arena.resolve_eq_ok_iff.1 hresolve
  exact ⟨run.finds_graphOf models, (run.finds_graphOf models).own⟩

theorem own_forum : ∃ graph, (Run.mk {} ⟨0⟩ 0).synthesize [.forum] = .ok graph ∧
    (Run.mk {} ⟨0⟩ 0).enums [.forum] = [⟨"PostStateEnum", [⟨"open", "open"⟩, ⟨"closed", "closed"⟩]⟩] ∧
      (Run.mk {} ⟨0⟩ 0).OwnTypes [.forum] graph := by
  obtain ⟨graph, hok⟩ : ∃ graph, (Run.mk {} ⟨0⟩ 0).synthesize [.forum] = .ok graph :=
    exists_eq_ok (by decide +kernel)
  exact ⟨graph, hok, by decide +kernel, (finds_and_own_of_synthesize hok).2 (by decide +kernel)⟩

end Run

namespace ModelDecl

/-- A model with a plural reference below `a`, and with another one whose name reads like the path of
the first. -/
def member : ModelDecl where
  key := "members"
  name := "member"
  fields := [.nested "a" [.references "b" "club"], .references "aB" "city"]

def club : ModelDecl := { key := "clubs", name := "club", fields := [.scalar "title" .string] }

def town : ModelDecl := { key := "towns", name := "city", fields := [.scalar "title" .string] }

end ModelDecl

/-- Two plural references at different paths share one connection, which leads to the target of the
first. -/
theorem Run.shared_connection : ∃ graph,
    (Run.mk {} ⟨0⟩ 0).synthesize [.member, .club, .town] = .ok graph ∧
      ((Run.mk {} ⟨0⟩ 0).pluralSlots [.member, .club, .town]).map
        (fun slot => (slot.path, slot.target)) = [("a.b", "club"), ("aB", "city")] ∧
      (∃ field, graph.fieldAt? "member" "a.b" = some field ∧
        field.type = .nonNull (.connection "memberABConnection")) ∧
      (∃ field, graph.fieldAt? "member" "aB" = some field ∧
        field.type = .nonNull (.connection "memberABConnection")) ∧
      graph.connection? "memberABConnection" =
        some ⟨"memberABConnection", "memberABEdge", "club"⟩ := by
  obtain ⟨graph, hok⟩ : ∃ graph, (Run.mk {} ⟨0⟩ 0).synthesize [.member, .club, .town] = .ok graph :=
    exists_eq_ok (by decide +kernel)
  have hread : ((Run.mk {} ⟨0⟩ 0).synthesize [.member, .club, .town]).toOption.map (fun graph =>
      ((graph.fieldAt? "member" "a.b").map OutputField.type,
        (graph.fieldAt? "member" "aB").map OutputField.type,
          graph.connection? "memberABConnection")) =
      some (some (.nonNull (.connection "memberABConnection")),
        some (.nonNull (.connection "memberABConnection")),
          some ⟨"memberABConnection", "memberABEdge", "club"⟩) := by
    decide +kernel
  rw [hok] at hread
  obtain ⟨hfirst, hsecond, hconnection⟩ : _ ∧ _ ∧ _ := by
    simpa only [Except.toOption, Option.map_some, Option.some.injEq, Prod.mk.injEq] using hread
  exact ⟨graph, hok, by decide +kernel, Option.map_eq_some_iff.1 hfirst,
    Option.map_eq_some_iff.1 hsecond, hconnection⟩

end ModelGraph
