import ModelGraph.Proofs.Schema.Registered

/-!
# The paths that resolvers are given

A resolver is given a filter and a sort whose paths have the names of the selected fields, and these
are the output names. The storage name of a field is rewritten to its output name, and no step turns
a path back, so a path has the storage names just where the rewriting leaves all of them alone.

## Main definitions

- `Executor.AsksAlong` — ways to the fields that compare or sort

## Main statements

- `Schema.path_of_asks` — the paths that a resolver is given, and when they are storage paths
- `Schema.asks_firstName_output` — a resolver is given a path that is no storage path
-/

namespace ModelGraph

namespace Schema

/-! ### Steps on a way -/

variable {ω : Type} {schema : Schema} {registry : HookRegistry ω} {graph : TypeGraph}
  {all : List SchemaType}

/-- The types that a way comes through are types of the schema. -/
theorem Leads.type?_of_owner? {owner? : Option SchemaType} {selections : List Selection}
    {way : List FieldStep} {arguments : List (String × ArgValue)}
    (h : schema.Leads owner? selections way arguments)
    (howner : ∀ owner, owner? = some owner → ∃ name, schema.type? name = some owner) :
    ∀ step ∈ way, ∀ owner, step.owner? = some owner → ∃ name, schema.type? name = some owner := by
  induction h with
  | field => exact List.forall_mem_singleton.2 howner
  | @deeper owner? _ _ _ name _ _ _ _ _ _ ih =>
    refine List.forall_mem_cons.2 ⟨howner, ih fun owner hbelow => ?_⟩
    rw [below?] at hbelow
    split at hbelow
    · cases hbelow
    · obtain ⟨_, -, hbelow⟩ := Option.bind_eq_some_iff.1 hbelow
      obtain ⟨found, -, htype⟩ := Option.bind_eq_some_iff.1 hbelow
      exact ⟨_, htype⟩
  | @inline owner? _ _ condition _ _ _ _ _ ih =>
    refine ih fun owner hwithin => ?_
    cases condition with
    | none => exact howner owner hwithin
    | some name =>
      obtain ⟨_, -, htype⟩ := Option.bind_eq_some_iff.1 hwithin
      exact ⟨name, htype⟩

/-- A field that a step selects is one of an object type that was registered. -/
theorem Exports.object_of_step (h : schema.Exports graph registry all) {step : FieldStep}
    {field : SchemaField} (hfield : step.field? = some field)
    (howner : ∀ owner, step.owner? = some owner → ∃ name, schema.type? name = some owner) :
    ∃ object, .object object ∈ all ∧ object.field? step.name = some field := by
  rw [FieldStep.field?] at hfield
  split at hfield
  · next object hobject =>
    obtain ⟨name, htype⟩ := howner _ hobject
    exact ⟨object, ((h.type?_cases htype).resolve_left fun heq => by cases heq).1, hfield⟩
  · cases hfield

/-- The stored field that a step reads is one of the graph. The field of the schema has its name and
its arguments, and the step has its name too. -/
theorem Exports.output_of_step (h : schema.Exports graph registry all) {step : FieldStep}
    {output : OutputField} (houtput : step.output? = some output)
    (howner : ∀ owner, step.owner? = some owner → ∃ name, schema.type? name = some owner) :
    output.name = step.name ∧ (∃ type ∈ graph.objects, output ∈ type.fields.values) ∧
      ∃ field, step.field? = some field ∧
        field.parameters = output.args.map fun arg => ⟨arg.name, .ofArg arg.type⟩ := by
  obtain ⟨field, hfield, hreader⟩ := Option.bind_eq_some_iff.1 houtput
  obtain ⟨object, hmem, hget⟩ := h.object_of_step hfield howner
  have hfound : field ∈ object.fields := List.mem_of_find?_eq_some hget
  rcases h.object_cases hmem with ⟨type, hobjects, hexported⟩ | hother
  · obtain ⟨fields, hmatch, heq⟩ := objectType_eq_ok hexported
    obtain rfl := SchemaType.object.inj heq
    obtain ⟨source, hsource, hsame⟩ := exists_of_forall₂ hmatch field hfound
    obtain ⟨hname, hstored, hparameters, -⟩ := outputField_eq_ok hsame
    rw [hstored] at hreader
    obtain rfl : source = output := Option.some.inj hreader
    exact ⟨hname.symm.trans (SchemaObject.name_of_field? hget), ⟨type, hobjects, hsource⟩, field,
      hfield, hparameters⟩
  · rw [(hother field hfound).1] at hreader
    cases hreader

end Schema

/-! ### The paths of a query -/

namespace Executor

variable {ω : Type} {run : Executor ω} {read : ReadField}

/-- A way leads, below a field that is read, to a field whose arguments compare or sort. -/
def AsksAlong (run : Executor ω) (read : ReadField) (way : List FieldStep) : Prop :=
  ∃ arguments args,
    run.schema.Leads (run.schema.type? read.field.type.innermost) read.selections way arguments ∧
      SelectionTree.convertAll run.convert arguments = .ok args ∧
        ((FilterNode.meaning? args).isSome ∨
          ∃ path, (SortEntry.ofVisited? ⟨path, args⟩).isSome)

/-- Every path of the query of a field that is read is that of a way. -/
theorem exists_way_of_key {query : CompiledQuery} (hquery : (run.treeOf read).compile = .ok query)
    {path : String} (hpath : path ∈ query.filter.keys ∨ path ∈ query.sort.keys) :
    ∃ way, run.AsksAlong read way ∧ path = Path.joined (way.map FieldStep.name) := by
  rcases hpath with hpath | hpath
  · obtain ⟨node, hget⟩ := OrderedMap.mem_keys_iff.1 hpath
    obtain ⟨way, arguments, args, hway, hnames, hargs, hnode⟩ :=
      exists_way_of_filter hquery hget (run.schema.type? read.field.type.innermost)
    exact ⟨way, ⟨arguments, args, hway, hargs, .inl (by rw [hnode]; rfl)⟩, hnames⟩
  · obtain ⟨direction, hget⟩ := OrderedMap.mem_keys_iff.1 hpath
    obtain ⟨way, arguments, args, entry, hway, hnames, hargs, hentry, -⟩ :=
      exists_way_of_sort hquery hget (run.schema.type? read.field.type.innermost)
    exact ⟨way, ⟨arguments, args, hway, hargs, .inr ⟨path, by rw [hentry]; rfl⟩⟩, hnames⟩

end Executor

namespace Schema

variable {ω : Type} {schema : Schema} {registry : HookRegistry ω} {resolver : Resolver ω}
  {graph : TypeGraph} {text : String} {name : Option String} {bindings : Variables}
  {document : Document} {operation : Operation} {root : SchemaObject} {read : ReadField}
  {params : ResolveParams}

/-- Every path of the filter and of the sort that a resolver is given has the output names of the
fields on a way to a field that compares or sorts. In the graph of a run these are the storage
names, rewritten. The path is that of the storage names exactly when rewriting changes none of
them. -/
theorem path_of_asks (hschema : ofGraph graph registry = .ok schema)
    (h : schema.Executes text name bindings document operation root)
    (hasks : (schema.executor registry resolver operation bindings).Asks root
      (document.selected bindings operation) read params)
    {path : String} (hpath : path ∈ params.query.filter.keys ∨ path ∈ params.query.sort.keys) :
    ∃ way, (schema.executor registry resolver operation bindings).AsksAlong read way ∧
      path = ".".intercalate (way.map FieldStep.name) ∧
      (∀ step ∈ way, ∀ output, step.output? = some output → output.name = step.name) ∧
      (∀ (run : Run) (models : List ModelDecl), run.synthesize models = .ok graph →
        ∀ step ∈ way, ∀ output, step.output? = some output →
          output.identity = true ∨ step.name = Naming.sanitize output.source) ∧
      (path = ".".intercalate (way.map FieldStep.storageName) ↔
        ∀ step ∈ way, step.storageName = step.name) := by
  obtain ⟨all, hexports⟩ := exports_of_ofGraph hschema
  obtain ⟨hreads, hparams⟩ := hasks
  obtain ⟨model, args, query, -, -, hquery, rfl⟩ := Executor.paramsOf?_eq_some_iff.1 hparams
  -- Turning enum items back leaves the paths of a query as they are.
  have hkeys : path ∈ query.filter.keys ∨ path ∈ query.sort.keys := by
    rwa [CompiledQuery.restoreEnums, OrderedMap.keys_mapWithKey] at hpath
  obtain ⟨way, hway, hnames⟩ := Executor.exists_way_of_key hquery hkeys
  have ⟨arguments, converted, hleads, _⟩ := hway
  have hsegments := hleads.isSegment (hreads.named h.named)
  have hknown := hleads.type?_of_owner? fun owner howner => ⟨_, howner⟩
  have hpath : path = ".".intercalate (way.map FieldStep.name) := by
    rw [hnames, Path.joined_eq_intercalate fun name hname => (hsegments name hname).1]
  refine ⟨way, hway, hpath, fun step hstep output hfound =>
    (hexports.output_of_step hfound (hknown step hstep)).1,
    fun run models hgraph step hstep output hfound => ?_, ?_⟩
  · obtain ⟨hsame, ⟨type, htype, hmem⟩, -⟩ := hexports.output_of_step hfound (hknown step hstep)
    have hfurnished := (Run.furnished_of_synthesize hgraph).field htype hmem
    exact hsame ▸ hfurnished.source
  · rw [hpath, eq_comm]
    constructor
    · intro hstorage
      have hsame := Path.eq_of_intercalate_eq hsegments
        (by rw [List.length_map, List.length_map]) hstorage
      exact List.map_inj_left.1 hsame
    · intro hkept
      rw [List.map_congr_left hkept]

/-! ### A stored name that is rewritten -/

theorem exists_question_of_any {run : Run} {models : List ModelDecl}
    {p : Schema → ReadField → ResolveParams → Bool}
    (h : ((run.synthesize models).toOption.any fun graph =>
      (ofGraph graph registry).toOption.any fun schema =>
        (schema.questions registry resolver text name bindings).any fun question =>
          p schema question.1 question.2) = true) :
    ∃ graph schema document operation root read params, run.synthesize models = .ok graph ∧
      ofGraph graph registry = .ok schema ∧
      schema.Executes text name bindings document operation root ∧
      read ∈ root.reads (document.selected bindings operation) ∧
      (schema.executor registry resolver operation bindings).paramsOf? read = some params ∧
      p schema read params = true := by
  obtain ⟨graph, hgraph, h⟩ := exists_eq_ok_of_any h
  obtain ⟨schema, hschema, h⟩ := exists_eq_ok_of_any h
  obtain ⟨⟨read, params⟩, hmem, h⟩ := List.any_eq_true.1 h
  obtain ⟨document, operation, root, hexecutes, hread, hparams⟩ := exists_read_of_mem_questions hmem
  exact ⟨graph, schema, document, operation, root, read, params, hgraph, hschema, hexecutes, hread,
    hparams, h⟩

end Schema

/-- Users with a stored name that cannot be an output name. -/
def ModelDecl.dashedUser : ModelDecl where
  key := "users"
  name := "User"
  fields := [.scalar "_id" .objectId, .scalar "first-name" .string]

/-- A request that compares and sorts by that name. -/
def firstNameRequest : String :=
  "\x7b userMany \x7b first_name(eq: \"Ada\", sort: DESC) \x7d \x7d"

/-- A resolver that finds nothing. -/
def Resolver.nothing : Resolver Unit := fun _ => pure .null

theorem Schema.path_of_asks_firstName : ∃ graph schema document operation root read params,
    (Run.mk {} ⟨0⟩ 0).synthesize [.dashedUser] = .ok graph ∧
      ofGraph graph ({} : HookRegistry Unit) = .ok schema ∧
      schema.Executes firstNameRequest none ∅ document operation root ∧
      (schema.executor {} .nothing operation ∅).Asks root (document.selected ∅ operation) read
        params ∧
      "first_name" ∈ params.query.filter.keys ∧
      ∃ way, (schema.executor {} .nothing operation ∅).AsksAlong read way ∧
        "first_name" = ".".intercalate (way.map FieldStep.name) := by
  obtain ⟨graph, schema, document, operation, root, read, params, hgraph, hschema, hexecutes, hread,
    hparams, hcheck⟩ := @exists_question_of_any Unit {} .nothing firstNameRequest none ∅
      (Run.mk {} ⟨0⟩ 0) [.dashedUser]
      (fun _ _ params => decide ("first_name" ∈ params.query.filter.keys))
      (by decide +kernel)
  have hpath := of_decide_eq_true hcheck
  have hasks := Executor.Asks.mk (.here hread) hparams
  obtain ⟨way, hway, hnames, -⟩ := path_of_asks hschema hexecutes hasks (.inl hpath)
  exact ⟨graph, schema, document, operation, root, read, params, hgraph, hschema, hexecutes, hasks,
    hpath, way, hway, hnames⟩

/-- The paths that a resolver is given are not those of the storage names. -/
theorem Schema.asks_firstName_output : ∃ graph schema document operation root read params,
    (Run.mk {} ⟨0⟩ 0).synthesize [.dashedUser] = .ok graph ∧
      ofGraph graph ({} : HookRegistry Unit) = .ok schema ∧
      schema.Executes firstNameRequest none ∅ document operation root ∧
      (schema.executor {} .nothing operation ∅).Asks root (document.selected ∅ operation) read
        params ∧
      params.query.filter.keys = ["first_name"] ∧ params.query.sort.keys = ["first_name"] ∧
      ∀ way, (schema.executor {} .nothing operation ∅).AsksAlong read way →
        ".".intercalate (way.map FieldStep.storageName) = "first-name" := by
  obtain ⟨graph, schema, document, operation, root, read, params, hgraph, hschema, hexecutes, hread,
    hparams, hcheck⟩ := @exists_question_of_any Unit {} .nothing firstNameRequest none ∅
      (Run.mk {} ⟨0⟩ 0) [.dashedUser] (fun schema read params => decide (
        params.query.filter.keys = ["first_name"] ∧ params.query.sort.keys = ["first_name"] ∧
        ∀ entry ∈ schema.ways (schema.type? read.field.type.innermost) read.selections,
          ".".intercalate (entry.1.map FieldStep.storageName) = "first-name"))
      (by decide +kernel)
  obtain ⟨hfilter, hsort, hways⟩ := of_decide_eq_true hcheck
  refine ⟨graph, schema, document, operation, root, read, params, hgraph, hschema, hexecutes,
    ⟨.here hread, hparams⟩, hfilter, hsort, fun way hway => ?_⟩
  obtain ⟨arguments, _, hleads, -⟩ := hway
  exact hways _ hleads.mem_ways

end ModelGraph
