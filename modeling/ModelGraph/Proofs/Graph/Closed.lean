import ModelGraph.Proofs.Graph.Faithful
import ModelGraph.Proofs.Graph.Populated

/-!
# Closed graphs

A graph mentions only what it has. The last phase of a run looks at the types and arguments of all
fields, but not at inputs and not at connections that no field mentions. These are right by the way
they are made: mirrors mention enums of the run and mirrors that stay, and connections lead to the
output names of listed models. Enums, inputs and connections have names of their own kinds, so none
of them is overwritten in the graph.

## Main definitions

- `TypeGraph.Closed` — a graph that has everything it mentions
- `TypeGraph.Peopled` — a graph whose types have members

## Main statements

- `Run.enum?_graphOf`, `Run.input?_graphOf`, `Run.connection?_graphOf` — what a graph finds
- `Run.closed_of_synthesize` — the graph of a run is closed, and its types have members
-/

namespace ModelGraph

namespace TypeGraph

/-- Whether what a type mentions is there, with its kind. -/
def Has (graph : TypeGraph) (type : FieldType) : Prop :=
  match type.innermost with
  | .object name => (graph.object? name).isSome
  | .enum name => (graph.enum? name).isSome
  | .connection name => (graph.connection? name).isSome
  | _ => True

/-- A graph that has everything it mentions. -/
structure Closed (graph : TypeGraph) : Prop where
  resolved : ∀ type ∈ graph.objects, ∀ field ∈ type.fields.values, field.type.isUnresolved = false
  types : ∀ type ∈ graph.objects, ∀ field ∈ type.fields.values, graph.Has field.type
  nodes : ∀ name connection, graph.connection? name = some connection →
    (graph.model? connection.node).isSome
  args : ∀ type ∈ graph.objects, ∀ field ∈ type.fields.values, ∀ arg ∈ field.args,
    graph.isInputName arg.type.innermost = true
  mirrors : ∀ name input, graph.input? name = some input → ∀ arg ∈ input.fields.values,
    graph.isInputName arg.innermost = true

/-- A graph whose objects, enums and inputs have members. -/
structure Peopled (graph : TypeGraph) : Prop where
  objects : ∀ type ∈ graph.objects, type.fields.isEmpty = false
  enums : ∀ name enum, graph.enum? name = some enum → enum.values ≠ []
  inputs : ∀ name input, graph.input? name = some input → input.fields.isEmpty = false

end TypeGraph

namespace Run

variable (run : Run) (models : List ModelDecl)

/-! ### What the graph of a run finds -/

theorem connections_eq_none {name : String}
    (h : ∀ owner path, name ≠ Naming.connectionType owner path) :
    (run.layOut models).settled.connections.get? name = none := by
  refine Option.eq_none_iff_forall_ne_some.2 fun connection hget => ?_
  obtain ⟨slot, -, -, rfl, hname⟩ := run.exists_slot_of_connection models hget
  exact h slot.owner slot.path hname.symm

theorem inputs_eq_none {name : String} (h : ∀ object, name ≠ Naming.inputType object) :
    (run.layOut models).settled.inputs.get? name = none := by
  rw [OrderedMap.get?_eq_none_iff]
  intro hmem
  obtain ⟨object, heq⟩ := (run.populated models).settled.inputNames name hmem
  exact h object heq

theorem exists_connection_of_mem {name : String}
    (h : name ∈ (run.kept models).flatMap KeptModel.connectionNames) :
    ∃ connection, (run.layOut models).settled.connections.get? name = some connection := by
  rw [← map_connectionType_flatMap_slots, ← (run.holds models).pending] at h
  obtain ⟨slot, hslot, rfl⟩ := List.mem_map.1 h
  obtain ⟨first, hfirst⟩ := Option.isSome_iff_exists.1 (List.find?_isSome
    (p := fun other => Naming.connectionType other.owner other.path =
      Naming.connectionType slot.owner slot.path).2 ⟨slot, hslot, decide_eq_true rfl⟩)
  rw [Arena.settled, Arena.get?_connections_settleAll, hfirst, Option.map_some]
  cases hbefore : (run.layOut models).connections.get?
    (Naming.connectionType slot.owner slot.path) with
  | none => exact ⟨_, rfl⟩
  | some connection => exact ⟨connection, rfl⟩

/-- The graph of a run finds an object type whose name no type of another kind has. -/
theorem exists_object?_graphOf {name : String}
    (h : name ∈ (run.kept models).flatMap KeptModel.objectNames)
    (hmodel : name ∉ models.map fun model => Naming.sanitize model.name)
    (henum : name ∉ (run.kept models).flatMap KeptModel.enumNames)
    (hconnection : name ∉ (run.kept models).flatMap KeptModel.connectionNames)
    (hinput : name ∉ (run.layOut models).inputs.keys) :
    ∃ type, (run.graphOf models (run.layOut models).settled).object? name = some type := by
  obtain ⟨-, hobjects, henums, hinputs⟩ := Arena.settled_frame (run.layOut models)
  have hkey : name ∈ (run.layOut models).settled.objects.keys :=
    hobjects.symm ▸ (run.holds models).mem_objects.2 h
  obtain ⟨type, hget⟩ := OrderedMap.mem_keys_iff.1 hkey
  refine ⟨type, run.object?_graphOf models _ hget hmodel ?_ (hinputs.symm ▸ hinput) fun hmem =>
    hconnection (run.mem_connectionNames_of_settled models hmem)⟩
  rw [henums]
  exact fun hmem => henum ((run.holds models).mem_enums.1 hmem)

/-- The graph of a run finds just the enums that were laid out. -/
theorem enum?_graphOf (name : String) :
    (run.graphOf models (run.layOut models).settled).enum? name =
      (run.layOut models).enums.get? name := by
  rw [TypeGraph.enum?, type?_graphOf, Arena.get?_namedTypes, (Arena.settled_frame _).2.2.1]
  cases henum : (run.layOut models).enums.get? name with
  | some enum =>
    obtain ⟨-, parent, field, rfl⟩ := (run.populated models).enums name enum henum
    rw [run.connections_eq_none models (Naming.enumType_ne_connectionType parent field),
      run.inputs_eq_none models (Naming.enumType_ne_inputType parent field)]
    rfl
  | none =>
    cases (run.layOut models).settled.connections.get? name <;>
      cases (run.layOut models).settled.inputs.get? name <;>
        cases (run.layOut models).settled.objects.get? name <;> rfl

/-- The graph of a run finds just the inputs that were laid out. -/
theorem input?_graphOf (name : String) :
    (run.graphOf models (run.layOut models).settled).input? name =
      (run.layOut models).inputs.get? name := by
  rw [TypeGraph.input?, type?_graphOf, Arena.get?_namedTypes, (Arena.settled_frame _).2.2.2]
  cases hinput : (run.layOut models).inputs.get? name with
  | some input =>
    obtain ⟨object, rfl⟩ := (run.populated models).inputNames name
      (OrderedMap.mem_keys_of_get? hinput)
    rw [run.connections_eq_none models (Naming.inputType_ne_connectionType object)]
    rfl
  | none =>
    cases (run.layOut models).settled.connections.get? name <;>
      cases (run.layOut models).settled.enums.get? name <;>
        cases (run.layOut models).settled.objects.get? name <;> rfl

/-- The graph of a run finds just the connections of its slots. -/
theorem connection?_graphOf (name : String) :
    (run.graphOf models (run.layOut models).settled).connection? name =
      (run.layOut models).settled.connections.get? name := by
  rw [TypeGraph.connection?, type?_graphOf, Arena.get?_namedTypes]
  cases (run.layOut models).settled.connections.get? name with
  | some connection => rfl
  | none =>
    cases (run.layOut models).settled.inputs.get? name <;>
      cases (run.layOut models).settled.enums.get? name <;>
        cases (run.layOut models).settled.objects.get? name <;> rfl

/-- The object types of the graph of an arena are roots and finished types of the arena. -/
theorem exists_holder_of_mem_objects {arena : Arena} {type : ObjectType}
    (h : type ∈ (run.graphOf models arena).objects) :
    ∃ holder, arena.holder? holder = some type := by
  rcases TypeGraph.mem_objects_iff.1 h with hroot | hobject
  · obtain ⟨name, hmodel⟩ := TypeGraph.mem_models_iff.1 hroot
    by_cases hname : name ∈ models.map fun model => Naming.sanitize model.name
    · rw [run.model?_graphOf models arena hname] at hmodel
      exact ⟨.root name, hmodel⟩
    · rw [run.model?_graphOf_of_notMem models arena hname] at hmodel
      cases hmodel
  · obtain ⟨name, htype⟩ := TypeGraph.mem_namedTypes_iff.1 hobject
    rw [type?_graphOf] at htype
    exact ⟨.object name, Arena.get?_objects_of_namedTypes htype⟩

/-- Every listed target has its root in the graph of a run. -/
theorem isSome_model?_graphOf {target : String} (h : target ∈ models.map ModelDecl.name) :
    ((run.graphOf models (run.layOut models).settled).model? (Naming.sanitize target)).isSome := by
  obtain ⟨model, hmodel, rfl⟩ := List.mem_map.1 h
  have hname : Naming.sanitize model.name ∈ models.map fun model => Naming.sanitize model.name :=
    List.mem_map_of_mem hmodel
  have hkey : Naming.sanitize model.name ∈ (run.layOut models).settled.roots.keys := by
    rw [(Arena.settled_frame _).1]
    refine ((run.holds models).roots _).2 ?_
    rw [owners_kept]
    exact hname
  rw [run.model?_graphOf models _ hname, Option.isSome_iff_exists, ← OrderedMap.mem_keys_iff]
  exact hkey

/-- What a mirror or an argument of a run names can be the type of an argument. -/
theorem isInputName_of_uses {type : ArgType}
    (h : type.Uses (run.words models) (run.layOut models).inputs) :
    (run.graphOf models (run.layOut models).settled).isInputName type.innermost = true := by
  rw [TypeGraph.isInputName, Bool.or_eq_true, Bool.or_eq_true]
  rcases h with hbuiltIn | henum | hinput
  · exact .inl (.inl hbuiltIn)
  · obtain ⟨enum, hget⟩ := OrderedMap.mem_keys_iff.1 ((run.holds models).mem_enums.2 henum)
    refine .inl (.inr ?_)
    rw [run.enum?_graphOf, hget]
    rfl
  · obtain ⟨input, hget⟩ := OrderedMap.mem_keys_iff.1 hinput
    refine .inr ?_
    rw [run.input?_graphOf, hget]
    rfl

/-! ### Graphs of runs that succeed -/

variable {run : Run} {models : List ModelDecl} {graph : TypeGraph}

/-- A run that succeeds has a graph that has everything it mentions, and whose types have
members. -/
theorem closed_of_synthesize (h : run.synthesize models = .ok graph) :
    graph.Closed ∧ graph.Peopled := by
  obtain ⟨-, arena, hresolve, -, hvalid, rfl⟩ := synthesize_eq_ok_iff.1 h
  obtain ⟨htargets, rfl⟩ := Arena.resolve_eq_ok_iff.1 hresolve
  rw [TypeGraph.validate_eq_ok_iff] at hvalid
  simp only [TypeGraph.checkField_eq_ok_iff] at hvalid
  have hmembers := (run.populated models).settled
  refine ⟨⟨fun type htype field hfield => (hvalid type htype field hfield).1,
    fun type htype field hfield => ?_, fun name connection hget => ?_,
    fun type htype field hfield => (hvalid type htype field hfield).2.2,
    fun name input hget arg harg => ?_⟩, ⟨fun type htype => ?_, fun name enum hget => ?_,
    fun name input hget => ?_⟩⟩
  · have hfound := (hvalid type htype field hfield).2.1
    rw [TypeGraph.Has]
    cases hcore : field.type.innermost with
    | object name => exact TypeGraph.danglingType?_object.1 (hcore ▸ hfound)
    | enum name => exact TypeGraph.danglingType?_enum.1 (hcore ▸ hfound)
    | connection name =>
      obtain ⟨connection, hget, -⟩ := TypeGraph.danglingType?_connection.1 (hcore ▸ hfound)
      simp [hget]
    | scalar _ | list _ | nonNull _ | unresolved _ => trivial
  -- The validation does not look at connections and inputs by themselves: these two hold by the
  -- way they are made.
  · rw [run.connection?_graphOf] at hget
    obtain ⟨slot, hslot, -, rfl, -⟩ := run.exists_slot_of_connection models hget
    rw [← (run.holds models).pending] at hslot
    exact run.isSome_model?_graphOf models (htargets slot hslot)
  · rw [run.input?_graphOf] at hget
    exact run.isInputName_of_uses models (((run.tidy models).inputs name input hget).2 arg harg)
  · obtain ⟨holder, hholder⟩ := run.exists_holder_of_mem_objects models htype
    cases holder with
    | root name => exact hmembers.roots name type hholder
    | object name => exact hmembers.objects name type hholder
  · rw [run.enum?_graphOf] at hget
    exact ((run.populated models).enums name enum hget).1
  · rw [run.input?_graphOf] at hget
    exact (run.populated models).inputs name input hget

end Run

/-- A model with lists of a shape that lists itself, so that its mirror mentions itself. -/
def ModelDecl.forum : ModelDecl where
  key := "forums"
  name := "forum"
  fields := [.list "threads" (.embedded "post" [.enumeration "state" ["open", "closed"],
    .list "replies" (.embedded "post" []), .references "authors" "forum"])]

theorem Run.closed_forum : ∃ graph, (Run.mk {} ⟨0⟩ 0).synthesize [.forum] = .ok graph ∧
    (graph.input? "PostInput").isSome ∧ graph.Closed ∧ graph.Peopled := by
  let result := (Run.mk {} ⟨0⟩ 0).synthesize [.forum]
  obtain ⟨graph, hok⟩ : ∃ graph, result = .ok graph := exists_eq_ok (by decide +kernel)
  have hinput : result.toOption.all (fun graph => (graph.input? "PostInput").isSome) = true := by
    decide +kernel
  rw [hok] at hinput
  exact ⟨graph, hok, hinput, closed_of_synthesize hok⟩

end ModelGraph
