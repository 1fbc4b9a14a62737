import ModelGraph.Proofs.Graph.Drawn
import ModelGraph.Proofs.Schema.Paths
import ModelGraph.Proofs.Schema.Suits

/-!
# Enum items in the filters that resolvers are given

An argument may name an enum item wherever its type has an enum: bare, in lists, and in the inputs
that match the elements of lists. Items are turned back into stored values at the fields whose own
values are enum items, when stored fields alone lead to them. There the arguments have the type of
the field, and no item stays. Everywhere else a filter stays as it was compiled: at fields with
scalar values, where there is no item, but also at lists of objects and below connections.

## Main definitions

- `TypeGraph.stored` — a value with the enum items that its type has turned back
- `FieldStep.argumentType?` — the type of an argument at a step

## Main statements

- `Schema.restored_of_reads` — which items of a filter are turned back
- `Schema.keeps_items_of_related` — items below connections and in inputs stay
-/

namespace ModelGraph

namespace TypeGraph

mutual

/-- A value for a type, with the items of enums turned back into the values that they stand for. The
members of an input are values for the types of its fields. -/
def stored (graph : TypeGraph) (type : String) : Json → Json
  | .string item => .string (((graph.enum? type).bind fun enum => enum.sourceOf? item).getD item)
  | .array items => .array (storedItems graph type items)
  | .object members =>
    match graph.input? type with
    | some input => .object (storedMembers graph input members)
    | none => .object members
  | value => value

/-- The items of a list, all for one type. -/
def storedItems (graph : TypeGraph) (type : String) : List Json → List Json
  | [] => []
  | item :: rest => stored graph type item :: storedItems graph type rest

/-- The members of an object for an input. -/
def storedMembers (graph : TypeGraph) (input : InputType) :
    List (String × Json) → List (String × Json)
  | [] => []
  | (name, value) :: rest =>
    (name, match input.fields.get? name with
      | some type => stored graph type.innermost value
      | none => value) :: storedMembers graph input rest

end

variable {graph : TypeGraph} {type : String}

mutual

/-- For an enum, every item is turned back. -/
theorem stored_of_enum? {enum : EnumType} (h : graph.enum? type = some enum) :
    (value : Json) → graph.stored type value = enum.restore value
  | .string item => by rw [stored, EnumType.restore, h, Option.bind_some]
  | .array items => by rw [stored, EnumType.restore, storedItems_of_enum? h]
  | .object members => by
    have hinput : graph.input? type = none := by
      rw [enum?_eq_some_iff] at h
      rw [input?, h]
    rw [stored, EnumType.restore, hinput] <;> simp
  | .null | .bool _ | .number _ => by rw [stored, EnumType.restore] <;> simp

theorem storedItems_of_enum? {enum : EnumType} (h : graph.enum? type = some enum) :
    (items : List Json) → graph.storedItems type items = enum.restoreItems items
  | [] => by rw [storedItems, EnumType.restoreItems]
  | item :: rest => by
    rw [storedItems, EnumType.restoreItems, stored_of_enum? h, storedItems_of_enum? h]

end

mutual

/-- For a type that is neither an enum nor an input, a value stays. -/
theorem stored_eq_self (henum : graph.enum? type = none) (hinput : graph.input? type = none) :
    (value : Json) → graph.stored type value = value
  | .string item => by
    rw [stored, henum]
    rfl
  | .array items => by rw [stored, storedItems_eq_self henum hinput]
  | .object members => by rw [stored, hinput]
  | .null | .bool _ | .number _ => by rw [stored] <;> simp

theorem storedItems_eq_self (henum : graph.enum? type = none) (hinput : graph.input? type = none) :
    (items : List Json) → graph.storedItems type items = items
  | [] => by rw [storedItems]
  | item :: rest => by
    rw [storedItems, stored_eq_self henum hinput, storedItems_eq_self henum hinput]

end

end TypeGraph

theorem FilterNode.mapValues_eq_self {f : Json → Json} (h : ∀ value, f value = value)
    (node : FilterNode) : node.mapValues f = node := by
  cases node <;> simp [mapValues, h]

/-- Values for a scalar stay. -/
theorem Run.stored_scalar {run : Run} {models : List ModelDecl} {graph : TypeGraph}
    (h : run.synthesize models = .ok graph) (kind : OutputScalar) (value : Json) :
    graph.stored kind.name value = value := by
  obtain ⟨-, arena, hresolve, -, -, rfl⟩ := synthesize_eq_ok_iff.1 h
  obtain ⟨-, rfl⟩ := Arena.resolve_eq_ok_iff.1 hresolve
  have hbuiltIn := Arguments.isBuiltIn_scalar kind
  refine TypeGraph.stored_eq_self (Option.eq_none_iff_forall_ne_some.2 fun enum henum => ?_)
    (Option.eq_none_iff_forall_ne_some.2 fun input hinput => ?_) value
  · rw [run.enum?_graphOf] at henum
    obtain ⟨-, parent, field, hname⟩ := (run.populated models).enums _ enum henum
    rw [hname, Naming.enumType, Arguments.isBuiltIn_append (by decide)] at hbuiltIn
    cases hbuiltIn
  · rw [run.input?_graphOf] at hinput
    obtain ⟨object, hname⟩ :=
      (run.populated models).inputNames _ (OrderedMap.mem_keys_of_get? hinput)
    rw [hname, Naming.inputType, Arguments.isBuiltIn_append (by decide)] at hbuiltIn
    cases hbuiltIn

/-- The type of an argument of the field that a step selects, under its lists. -/
def FieldStep.argumentType? (step : FieldStep) (argument : String) : Option String :=
  step.field?.bind fun field =>
    (field.parameter? argument).map fun parameter => parameter.type.innermost

theorem exists_last_of_storedField? {way : List FieldStep} {output : OutputField}
    (h : storedField? way = some output) :
    ∃ step, way.getLast? = some step ∧ step.output? = some output := by
  induction way with
  | nil => cases h
  | cons step rest ih =>
    cases rest with
    | nil => exact ⟨step, rfl, h⟩
    | cons next rest =>
      rw [storedField?_cons_cons] at h
      obtain ⟨_, -, h⟩ := Option.bind_eq_some_iff.1 h
      obtain ⟨last, hlast, houtput⟩ := ih h
      exact ⟨last, by rw [List.getLast?_cons_cons, hlast], houtput⟩

/-- A parameter that compares with scalars or enum items is of their type. -/
theorem Arguments.innermost_of_comparison {leaf : String} {operator : ComparisonOperator}
    {parameter : SchemaInput}
    (h : (((comparison leaf).map fun arg => SchemaInput.mk arg.name (.ofArg arg.type)).find?
      fun parameter => parameter.name = operator.argument) = some parameter) :
    parameter.type.innermost = leaf := by
  cases operator <;> cases h <;> rfl

theorem SelectionTree.map_fst_convertAll {convert : ArgValue → Except SelectionError Json}
    {arguments : List (String × ArgValue)} {args : FieldArguments}
    (h : convertAll convert arguments = .ok args) : args.map Prod.fst = arguments.map Prod.fst := by
  induction arguments generalizing args with
  | nil =>
    cases h
    rfl
  | cons argument rest ih =>
    obtain ⟨json, -, h⟩ := bind_eq_ok_iff.1 h
    obtain ⟨others, hothers, h⟩ := bind_eq_ok_iff.1 h
    cases h
    rw [List.map_cons, List.map_cons, ih hothers]

/-- A clause compares with an argument of the field. -/
theorem FilterNode.exists_argument_of_clause {convert : ArgValue → Except SelectionError Json}
    {arguments : List (String × ArgValue)} {args : FieldArguments} {node : FilterNode}
    (hargs : SelectionTree.convertAll convert arguments = .ok args)
    (hnode : meaning? args = some node) {clause : Clause} (hclause : clause ∈ node.clauses) :
    ∃ argument ∈ arguments, argument.1 = clause.operator.argument := by
  obtain ⟨⟨name, value⟩, hmem, hof⟩ := mem_clauses_meaning?.1 ⟨node, hnode, hclause⟩
  have hoperator := (clauseOf?_eq_some_iff.1 hof).1
  rw [ComparisonOperator.ofArgument?] at hoperator
  have hname : clause.operator.argument = name := by simpa using List.find?_some hoperator
  have hfst : name ∈ arguments.map Prod.fst := by
    rw [← SelectionTree.map_fst_convertAll hargs]
    exact List.mem_map.2 ⟨_, hmem, rfl⟩
  obtain ⟨argument, hargument, heq⟩ := List.mem_map.1 hfst
  exact ⟨argument, hargument, heq.trans hname.symm⟩

/-- The values of a node at a path are turned back by the type of the field there, if its values are
scalars or enum items. -/
theorem Run.restored_at {run : Run} {models : List ModelDecl} {graph : TypeGraph}
    (h : run.synthesize models = .ok graph) (model path : String) (node : FilterNode) :
    (match graph.enumAt? model path with
      | some type => node.mapValues type.restore
      | none => node) =
      ((graph.fieldAt? model path).bind fun output => output.type.leaf?).elim node fun leaf =>
        node.mapValues (graph.stored leaf) := by
  rw [TypeGraph.enumAt?]
  cases hfound : graph.fieldAt? model path with
  | none => rfl
  | some output =>
    obtain ⟨type, htype, hmem⟩ := graph.exists_of_fieldAt? hfound
    have hhas := (closed_of_synthesize h).1.types type htype output hmem
    rw [TypeGraph.Has] at hhas
    rw [Option.bind_some, Option.bind_some, FieldType.leaf?]
    cases hcore : output.type.innermost with
    | scalar kind => exact (FilterNode.mapValues_eq_self (stored_scalar h kind) node).symm
    | enum name =>
      rw [hcore] at hhas
      obtain ⟨enum, henum⟩ := Option.isSome_iff_exists.1 hhas
      dsimp only
      rw [henum, Option.elim_some, funext (TypeGraph.stored_of_enum? henum)]
    | object | connection | list | nonNull | unresolved => rfl

namespace Schema

variable {ω : Type} {schema : Schema} {registry : HookRegistry ω} {resolver : Resolver ω}
  {graph : TypeGraph} {text : String} {name : Option String} {bindings : Variables}
  {document : Document} {operation : Operation} {root : SchemaObject} {read : ReadField}
  {params : ResolveParams} {run : Run} {models : List ModelDecl} {all : List SchemaType}

/-- Where the field of a clause has scalars or enum items, the argument is of their type. -/
theorem argumentType?_of_leaf? (hgraph : run.synthesize models = .ok graph)
    (hexports : schema.Exports graph registry all) (hnames : (all.map SchemaType.name).Nodup)
    {owner? : Option SchemaType} {selections : List Selection} {way : List FieldStep}
    {arguments : List (String × ArgValue)} (hleads : schema.Leads owner? selections way arguments)
    (howner : ∀ owner, owner? = some owner → ∃ name, schema.type? name = some owner)
    (hdeclares : schema.Declares owner? selections) {output : OutputField}
    (houtput : storedField? way = some output) {leaf : String}
    (hleaf : output.type.leaf? = some leaf) {operator : ComparisonOperator}
    (hargument : ∃ argument ∈ arguments, argument.1 = operator.argument) :
    (way.getLast?.bind fun step => step.argumentType? operator.argument) = some leaf := by
  obtain ⟨step, hlast, hstep⟩ := exists_last_of_storedField? houtput
  have hknown := hleads.type?_of_owner? howner step (List.mem_of_getLast? hlast)
  obtain ⟨hsame, ⟨type, htype, hmem⟩, field, hfield, hparameters⟩ :=
    hexports.output_of_step hstep hknown
  obtain ⟨object, hobject, hget⟩ := hexports.object_of_step hfield hknown
  have hname : step.name ≠ Selection.typeName := by
    intro heq
    rw [heq, hexports.field?_typeName hnames hobject] at hget
    cases hget
  obtain ⟨argument, hargument, heq⟩ := hargument
  have hsome := hdeclares way arguments hleads step field hlast hname hfield argument hargument
  obtain ⟨parameter, hparameter⟩ := Option.isSome_iff_exists.1 hsome
  have hfurnished := (Run.furnished_of_synthesize hgraph).field htype hmem
  rw [hlast, Option.bind_some, FieldStep.argumentType?, hfield, Option.bind_some, ← heq, hparameter]
  rw [SchemaField.parameter?, hparameters, heq] at hparameter
  rcases hfurnished.args leaf hleaf with hargs | hargs
  · rw [hargs] at hparameter
    cases hparameter
  · rw [hargs] at hparameter
    exact congrArg some (Arguments.innermost_of_comparison hparameter)

/-- The query that a root field gives its resolver has the paths, operators, connectives and the
sort that its selection compiles to. Values are turned back at paths along which every step reads a
stored field and the last one has scalars or enum items: there a value is stored as one of the leaf
type, which is the type of the argument that it is given for. All other values stay. -/
theorem restored_of_reads (hgraph : run.synthesize models = .ok graph)
    (hschema : ofGraph graph registry = .ok schema) (hnames : Apart graph registry)
    (h : schema.Executes text name bindings document operation root)
    (hread : read ∈ root.reads (document.selected bindings operation))
    (hparams :
      (schema.executor registry resolver operation bindings).paramsOf? read = some params) :
    let run := schema.executor registry resolver operation bindings
    let owner? := schema.type? read.field.type.innermost
    ∃ query, (run.treeOf read).compile = .ok query ∧ params.query.sort = query.sort ∧
      params.query.filter.keys = query.filter.keys ∧
      ∀ path node, query.filter.get? path = some node →
        ∃ way arguments args, schema.Leads owner? read.selections way arguments ∧
          path = ".".intercalate (way.map FieldStep.name) ∧
          SelectionTree.convertAll run.convert arguments = .ok args ∧
          FilterNode.meaning? args = some node ∧
          let steps := schema.along owner? (way.map FieldStep.name)
          let leaf? := (storedField? steps).bind fun output => output.type.leaf?
          params.query.filter.get? path =
            some (leaf?.elim node fun leaf => node.mapValues (graph.stored leaf)) ∧
          (steps = way → ∀ leaf, leaf? = some leaf → ∀ clause ∈ node.clauses,
            (way.getLast?.bind fun step => step.argumentType? clause.operator.argument) =
              some leaf) := by
  intro run owner?
  obtain ⟨all, hexports⟩ := exports_of_ofGraph hschema
  have hnodup := hnames all hexports.registered_eq
  obtain ⟨model, args, query, hmodel, -, hquery, rfl⟩ := Executor.paramsOf?_eq_some_iff.1 hparams
  refine ⟨query, hquery, rfl, OrderedMap.keys_mapWithKey, fun path node hget => ?_⟩
  obtain ⟨way, arguments, args, hleads, hpath, hargs, hnode⟩ :=
    Executor.exists_way_of_filter hquery hget owner?
  have hsegments := hleads.isSegment (SchemaObject.named_of_mem_reads _ h.named hread)
  have hne : way.map FieldStep.name ≠ [] := by simpa using hleads.ne_nil
  have hroot := (hexports.mem_of_object? h.root_eq).1
  have hfield := hexports.fieldAt?_eq hnodup hgraph hroot hread hmodel hsegments hne
  rw [← hpath] at hfield
  refine ⟨way, arguments, args, hleads, ?_, hargs, hnode, ?_,
    fun hsteps leaf hleaf clause hclause => ?_⟩
  · rw [hpath, Path.joined_eq_intercalate fun name hname => (hsegments name hname).1]
  · rw [CompiledQuery.restoreEnums, OrderedMap.get?_mapWithKey, hget, Option.map_some, ← hfield]
    have hrestored := Run.restored_at hgraph model.name path node
    rw [← hexports.graph_eq] at hrestored ⊢
    exact congrArg some hrestored
  · obtain ⟨output, hfound, hleaf⟩ := Option.bind_eq_some_iff.1 hleaf
    rw [hsteps] at hfound
    exact argumentType?_of_leaf? hgraph hexports hnodup hleads (fun owner howner => ⟨_, howner⟩)
      (h.declares hexports hnodup hread) hfound hleaf
      (FilterNode.exists_argument_of_clause hargs hnode hclause)

end Schema

/-- Posts with a state, parts with states of their own, and related posts. -/
def ModelDecl.statefulPost : ModelDecl where
  key := "posts"
  name := "Post"
  fields := [.enumeration "state" ["in-progress", "done"], .references "related" "Post",
    .list "parts" (.nested [.enumeration "state" ["in-progress", "done"]])]

/-- A request that names an item of an enum wherever it may. -/
def inProgressRequest : String :=
  "\x7b postMany \x7b state(eq: in_progress)" ++
    " parts(elemMatch: \x7bstate: in_progress\x7d, all: [\x7bstate: in_progress\x7d])" ++
    " \x7b state(eq: in_progress) \x7d" ++
    " related \x7b edges \x7b node \x7b state(eq: in_progress) \x7d \x7d \x7d \x7d \x7d"

theorem Schema.restored_of_reads_statefulPost :
    ∃ graph schema document operation root read params,
      (Run.mk {} ⟨0⟩ 0).synthesize [.statefulPost] = .ok graph ∧
      ofGraph graph ({} : HookRegistry Unit) = .ok schema ∧
      Apart graph ({} : HookRegistry Unit) ∧
      schema.Executes inProgressRequest none ∅ document operation root ∧
      read ∈ root.reads (document.selected ∅ operation) ∧
      (schema.executor {} .nothing operation ∅).paramsOf? read = some params ∧
      params.query.filter.get? "parts.state" =
        some (.single ⟨.eq, .string "in-progress"⟩) ∧
      ∃ (node : FilterNode) (way : List FieldStep), params.query.filter.get? "parts.state" =
        some (((storedField? (schema.along (schema.type? read.field.type.innermost)
          (way.map FieldStep.name))).bind fun output => output.type.leaf?).elim node fun leaf =>
            node.mapValues (graph.stored leaf)) := by
  obtain ⟨graph, schema, document, operation, root, read, params, hgraph, hschema, hexecutes, hread,
    hparams, hcheck⟩ := @exists_question_of_any Unit {} .nothing inProgressRequest none ∅
      (Run.mk {} ⟨0⟩ 0) [.statefulPost] (fun schema _ params =>
        decide (Apart schema.graph ({} : HookRegistry Unit) ∧
          params.query.filter.get? "parts.state" = some (.single ⟨.eq, .string "in-progress"⟩)))
      (by decide +kernel)
  obtain ⟨hapart, hget⟩ := of_decide_eq_true hcheck
  obtain ⟨all, hexports⟩ := exports_of_ofGraph hschema
  rw [hexports.graph_eq] at hapart
  obtain ⟨query, -, -, hkeys, hrestored⟩ :=
    restored_of_reads hgraph hschema hapart hexecutes hread hparams
  have hkey := OrderedMap.mem_keys_of_get? hget
  rw [hkeys] at hkey
  obtain ⟨node, hnode⟩ := OrderedMap.mem_keys_iff.1 hkey
  obtain ⟨way, _, _, -, -, -, -, hsame, -⟩ := hrestored _ node hnode
  exact ⟨graph, schema, document, operation, root, read, params, hgraph, hschema, hapart, hexecutes,
    hread, hparams, hget, node, way, hsame⟩

/-- Items below connections and in the inputs for list elements reach the resolver as they are
written, though the arguments are of the type of the enum. -/
theorem Schema.keeps_items_of_related :
    ∃ graph schema document operation root read params,
      (Run.mk {} ⟨0⟩ 0).synthesize [.statefulPost] = .ok graph ∧
      ofGraph graph ({} : HookRegistry Unit) = .ok schema ∧
      schema.Executes inProgressRequest none ∅ document operation root ∧
      (schema.executor {} .nothing operation ∅).Asks root (document.selected ∅ operation) read
        params ∧
      params.query.filter.get? "related.edges.node.state" =
        some (.single ⟨.eq, .string "in_progress"⟩) ∧
      params.query.filter.get? "parts" =
        some (.combined .and [⟨.elemMatch, .object [("state", .string "in_progress")]⟩,
          ⟨.all, .array [.object [("state", .string "in_progress")]]⟩]) ∧
      ∀ way arguments,
        schema.Leads (schema.type? read.field.type.innermost) read.selections way arguments →
        (way.map FieldStep.name = ["related", "edges", "node", "state"] →
          ((way.getLast?.bind fun step => step.argumentType? "eq").map fun type =>
            graph.stored type (.string "in_progress")) = some (.string "in-progress")) ∧
        (way.map FieldStep.name = ["parts"] →
          ((way.getLast?.bind fun step => step.argumentType? "elemMatch").map fun type =>
            graph.stored type (.object [("state", .string "in_progress")])) =
              some (.object [("state", .string "in-progress")])) := by
  obtain ⟨graph, schema, document, operation, root, read, params, hgraph, hschema, hexecutes, hread,
    hparams, hcheck⟩ := @exists_question_of_any Unit {} .nothing inProgressRequest none ∅
      (Run.mk {} ⟨0⟩ 0) [.statefulPost] (fun schema read params => decide (
        params.query.filter.get? "related.edges.node.state" =
          some (.single ⟨.eq, .string "in_progress"⟩) ∧
        params.query.filter.get? "parts" =
          some (.combined .and [⟨.elemMatch, .object [("state", .string "in_progress")]⟩,
            ⟨.all, .array [.object [("state", .string "in_progress")]]⟩]) ∧
        ∀ entry ∈ schema.ways (schema.type? read.field.type.innermost) read.selections,
          (entry.1.map FieldStep.name = ["related", "edges", "node", "state"] →
            ((entry.1.getLast?.bind fun step => step.argumentType? "eq").map fun type =>
              schema.graph.stored type (.string "in_progress")) = some (.string "in-progress")) ∧
          (entry.1.map FieldStep.name = ["parts"] →
            ((entry.1.getLast?.bind fun step => step.argumentType? "elemMatch").map fun type =>
              schema.graph.stored type (.object [("state", .string "in_progress")])) =
                some (.object [("state", .string "in-progress")]))))
      (by decide +kernel)
  obtain ⟨hrelated, hparts, hways⟩ := of_decide_eq_true hcheck
  obtain ⟨all, hexports⟩ := exports_of_ofGraph hschema
  rw [hexports.graph_eq] at hways
  exact ⟨graph, schema, document, operation, root, read, params, hgraph, hschema, hexecutes,
    ⟨.here hread, hparams⟩, hrelated, hparts, fun way arguments hway => hways _ hway.mem_ways⟩

end ModelGraph
