import ModelGraph.Proofs.Success
import ModelGraph.Schema.Execution

/-!
# What a resolver is asked

An execution asks the resolver for the fields of the root type that the request selects, each with
the parameters that the field and its selection determine. The resolver is asked nothing else: two
resolvers that agree on these parameters give the same response.

## Main definitions

- `ReadField`, `SchemaObject.reads` — the fields that selections read from an object
- `Schema.Reads` — the fields that are read at any level
- `Executor.Asks` — the parameters that the resolver is asked with, and for which field
- `Schema.questions` — what the root fields of a request ask

## Main statements

- `Schema.execute_congr` — the response depends on the resolver only through what it is asked
-/

namespace ModelGraph

/-- A field as it is read from an object. -/
structure ReadField where
  field : SchemaField
  key : String
  arguments : List (String × ArgValue)
  selections : List Selection

/-- The model whose records a field asks the resolver for. -/
def FieldReader.model? : FieldReader → Option ObjectType
  | .many model | .byId model => some model
  | .stored _ _ | .count | .edges | .node _ | .cursor => none

/-- The fields that selections read from an object, in order. -/
def SchemaObject.reads (type : SchemaObject) : List Selection → List ReadField
  | [] => []
  | .field alias? name arguments _ inner :: rest =>
    let own := if name = Selection.typeName then none else type.field? name
    (own.map fun field => ⟨field, alias?.getD name, arguments, inner⟩).toList ++ reads type rest
  | .inline condition _ inner :: rest =>
    (if Executor.applies type condition then reads type inner else []) ++ reads type rest
  | .spread _ _ :: rest => reads type rest
termination_by selections => Selection.countAll selections
decreasing_by
  all_goals
    simp only [Selection.countAll, Selection.count]
    omega

theorem SchemaObject.name_of_field? {type : SchemaObject} {name : String} {field : SchemaField}
    (h : type.field? name = some field) : field.name = name := by
  have hname := List.find?_some h
  exact of_decide_eq_true hname

/-- A field that selections read from an object of a type, or from one below it. -/
inductive Schema.Reads (schema : Schema) : SchemaObject → List Selection → ReadField → Prop
  | here {type : SchemaObject} {selections : List Selection} {read : ReadField} :
      read ∈ type.reads selections → Reads schema type selections read
  | deeper {type inner : SchemaObject} {selections : List Selection} {outer read : ReadField} :
      outer ∈ type.reads selections → schema.object? outer.field.type.innermost = some inner →
      Reads schema inner outer.selections read → Reads schema type selections read

theorem Schema.Reads.mono {schema : Schema} {type : SchemaObject}
    {selections others : List Selection} {read : ReadField} (h : schema.Reads type selections read)
    (hsub : type.reads selections ⊆ type.reads others) : schema.Reads type others read := by
  cases h with
  | here hread => exact .here (hsub hread)
  | deeper houter hinner hread => exact .deeper (hsub houter) hinner hread

namespace Executor

variable {ω : Type}

/-- The tree of a field that is read. -/
def treeOf (run : Executor ω) (read : ReadField) : SelectionTree :=
  run.tree read.field.name read.key read.arguments read.selections

/-- The parameters that a field which is read asks the resolver with, if it asks at all. -/
def paramsOf? (run : Executor ω) (read : ReadField) : Option ResolveParams := do
  let model ← read.field.reader.model?
  let args ← (SelectionTree.convertAll run.convert read.arguments).toOption
  let query ← (run.treeOf read).compile.toOption
  pure
    { typeName := model.name, field := read.field.name, args := Json.ofMembers args,
      parent := .null, query := query.restoreEnums run.schema.graph model.name }

theorem paramsOf?_eq_some_iff {run : Executor ω} {read : ReadField} {params : ResolveParams} :
    run.paramsOf? read = some params ↔
      ∃ model args query, read.field.reader.model? = some model ∧
        SelectionTree.convertAll run.convert read.arguments = .ok args ∧
        (run.treeOf read).compile = .ok query ∧
        params =
          { typeName := model.name, field := read.field.name, args := Json.ofMembers args,
            parent := .null, query := query.restoreEnums run.schema.graph model.name } := by
  simp only [paramsOf?, Option.bind_eq_bind, Option.bind_eq_some_iff, toOption_eq_some_iff,
    Option.pure_def, Option.some.injEq, exists_and_left, @eq_comm _ _ params]

/-- Selections of an object of a type ask the resolver for a field, with parameters. -/
structure Asks (run : Executor ω) (type : SchemaObject) (selections : List Selection)
    (read : ReadField) (params : ResolveParams) : Prop where
  reads : run.schema.Reads type selections read
  params_eq : run.paramsOf? read = some params

/-- The same execution with another resolver. -/
def withResolver (run : Executor ω) (other : Resolver ω) : Executor ω :=
  { run with resolver := other }

variable {run : Executor ω} {other : Resolver ω}

theorem convert_withResolver : (run.withResolver other).convert = run.convert := rfl

/-- Selected fields look alike to all resolvers. -/
theorem treeOf_withResolver (read : ReadField) :
    (run.withResolver other).treeOf read = run.treeOf read := by
  rw [treeOf, treeOf, tree, tree, convert_withResolver]

theorem hooked_congr {params : ResolveParams} {resolver : Resolver ω}
    (h : resolver params = other params) (pre : List (PreHook ω)) (post : List (PostHook ω)) :
    Resolver.hooked pre post resolver params = Resolver.hooked pre post other params := by
  rw [Resolver.hooked, Resolver.hooked, h]

/-- Hooks around two resolvers that agree on parameters make resolvers that do. -/
theorem perform_hooked_congr (names : HookNames) {params : ResolveParams} {resolver : Resolver ω}
    (h : resolver params = other params) :
    (run.hooked names resolver >>= fun resolver => Execution.perform (resolver params)) =
      run.hooked names other >>= fun resolver => Execution.perform (resolver params) := by
  rw [hooked, hooked, HookRegistry.compose, HookRegistry.compose]
  by_cases hempty : names.isEmpty = true
  · rw [if_pos hempty, if_pos hempty]
    exact congrArg Execution.perform h
  · rw [if_neg hempty, if_neg hempty]
    cases run.registry.preHooks names.pre with
    | error e => rfl
    | ok pre =>
      cases run.registry.postHooks names.post with
      | error e => rfl
      | ok post => exact congrArg Execution.perform (hooked_congr h pre post)

theorem completeNamed_congr
    {object object' : SchemaObject → FieldValue → List PathStep → Execution ω Json}
    {name : String} (h : ∀ type, run.schema.object? name = some type → object type = object' type)
    (path : List PathStep) (value : FieldValue) :
    run.completeNamed object path name value =
      (run.withResolver other).completeNamed object' path name value := by
  have hschema : (run.withResolver other).schema = run.schema := rfl
  unfold completeNamed
  rw [hschema]
  cases htype : run.schema.type? name with
  | none => rfl
  | some found =>
    cases found with
    | object type =>
      have hobject : run.schema.object? name = some type := by rw [Schema.object?, htype]
      exact congrFun (congrFun (h type hobject) value) path
    | scalar => cases value <;> rfl
    | enum name items =>
      cases value with
      | leaf value => cases value <;> rfl
      | list | record => rfl
    | interface | input => rfl

/-- Completing a value asks no resolver, and reads only from objects of the type that its own type
names. -/
theorem complete_congr
    {object object' : SchemaObject → FieldValue → List PathStep → Execution ω Json}
    (ref : TypeRef) (h : ∀ type, run.schema.object? ref.innermost = some type →
      object type = object' type) (path : List PathStep) (value : Option FieldValue) :
    run.complete object path ref value =
      (run.withResolver other).complete object' path ref value := by
  induction ref generalizing path value with
  | named name =>
    cases value with
    | none => simp only [complete]
    | some value =>
      rw [complete, complete]
      exact completeNamed_congr h path value
  | list element ih =>
    cases value with
    | none => simp only [complete]
    | some value =>
      cases value with
      | leaf | record => rw [complete, complete] <;> simp
      | list items =>
        have hitem : (fun item : FieldValue × Nat =>
            run.complete object (path ++ [.index item.2]) element (some item.1)) = fun item =>
              (run.withResolver other).complete object' (path ++ [.index item.2]) element
                (some item.1) :=
          funext fun item => ih h _ _
        rw [complete, complete, hitem]
  | nonNull inner ih =>
    cases value with
    | none => rw [complete, complete]
    | some value =>
      rw [complete, complete]
      exact ih h path (some value)

/-- The value of a field depends on the resolver only where the field asks it. -/
theorem read_congr {field : SchemaField} {args : Json} {selected : SelectionTree}
    (h : ∀ model query, field.reader.model? = some model → selected.compile = .ok query →
      ∀ params, params = ResolveParams.mk model.name field.name args .null
          (query.restoreEnums run.schema.graph model.name) →
        run.resolver params = other params) (parent : FieldValue) :
    run.read field args selected parent =
      (run.withResolver other).read field args selected parent := by
  have hask : ∀ model, field.reader.model? = some model →
      run.askRoot model field.name args selected =
        (run.withResolver other).askRoot model field.name args selected := by
    intro model hmodel
    rw [askRoot, askRoot]
    cases hquery : selected.compile with
    | error e => rfl
    | ok query => exact perform_hooked_congr model.hooks (h model query hmodel hquery _ rfl)
  unfold read
  cases hreader : field.reader with
  | many model | byId model =>
    dsimp only
    rw [hask model (by rw [hreader]; rfl)]
    rfl
  | stored | count | edges | node | cursor => rfl

/-- The object that selections give for a value. -/
def respond (run : Executor ω) (selections : List Selection) (type : SchemaObject)
    (value : FieldValue) (path : List PathStep) : Execution ω Json := do
  let members ← run.select type value path [] selections
  pure (Response.ofMembers members)

/-- The value that a field which is read has in the response. -/
def answer (run : Executor ω) (read : ReadField) (parent : FieldValue) (path : List PathStep) :
    Execution ω Json := do
  let args ←
    match SelectionTree.convertAll run.convert read.arguments with
    | .ok args => pure (Json.ofMembers args)
    | .error e => throw { message := e.message }
  let value ← run.read read.field args (run.treeOf read) parent
  run.complete (run.respond read.selections) (path ++ [.key read.key]) read.field.type value

theorem select_field {type : SchemaObject} {parent : FieldValue} {path : List PathStep}
    {members : List (String × Json)} {alias? : Option String} {name : String}
    {arguments : List (String × ArgValue)} {directives : List Directive}
    {inner rest : List Selection} {field : SchemaField}
    (hname : name ≠ Selection.typeName) (hfield : type.field? name = some field) :
    run.select type parent path members (.field alias? name arguments directives inner :: rest) =
      (do
        let value ← Execution.recorded <|
          run.answer ⟨field, alias?.getD name, arguments, inner⟩ parent path
        match value with
        | some value =>
          run.select type parent path (Response.put members (alias?.getD name) value) rest
        | none => run.select type parent path members rest) := by
  rw [select, if_neg hname, hfield, answer, treeOf, SchemaObject.name_of_field? hfield]
  rfl

theorem Asks.mono {type : SchemaObject} {selections others : List Selection} {read : ReadField}
    {params : ResolveParams} (h : run.Asks type selections read params)
    (hsub : type.reads selections ⊆ type.reads others) : run.Asks type others read params :=
  ⟨h.reads.mono hsub, h.params_eq⟩

/-- A field that is read is answered alike by resolvers that agree where it asks them. -/
theorem answer_congr {type : SchemaObject} {selections : List Selection} {read : ReadField}
    (hread : read ∈ type.reads selections)
    (h : ∀ read params, run.Asks type selections read params → run.resolver params = other params)
    (hrespond : ∀ inner, run.schema.object? read.field.type.innermost = some inner →
      run.respond read.selections inner = (run.withResolver other).respond read.selections inner)
    (parent : FieldValue) (path : List PathStep) :
    run.answer read parent path = (run.withResolver other).answer read parent path := by
  have hcomplete := fun value =>
    @complete_congr _ run other _ _ read.field.type hrespond (path ++ [.key read.key]) value
  rw [answer, answer, treeOf_withResolver, convert_withResolver]
  cases hargs : SelectionTree.convertAll run.convert read.arguments with
  | error e =>
    -- Arguments that cannot be read fail the field before anything is asked.
    have hthrow : ∀ next : Json → Execution ω Json,
        (throw { message := e.message } : Execution ω Json) >>= next =
          throw { message := e.message } := fun _ => rfl
    exact (hthrow _).trans (hthrow _).symm
  | ok args =>
    have hvalue := @read_congr _ run other read.field (Json.ofMembers args) (run.treeOf read)
      (fun model query hmodel hquery params hparams =>
        h read params ⟨.here hread,
          paramsOf?_eq_some_iff.2 ⟨model, args, query, hmodel, hargs, hquery, hparams⟩⟩) parent
    simp only [pure_bind, hvalue]
    exact bind_congr fun value => hcomplete value

/-- What selections give depends on the resolver only through what it is asked. -/
theorem select_congr (type : SchemaObject) (parent : FieldValue) (path : List PathStep)
    (members : List (String × Json)) (selections : List Selection)
    (h : ∀ read params, run.Asks type selections read params → run.resolver params = other params) :
    run.select type parent path members selections =
      (run.withResolver other).select type parent path members selections := by
  match selections with
  | [] => rw [select, select]
  | .field alias? name arguments directives inner :: rest =>
    have hsub : type.reads rest ⊆
        type.reads (.field alias? name arguments directives inner :: rest) := by
      rw [SchemaObject.reads]
      exact List.subset_append_right _ _
    have hrest := fun members => select_congr type parent path members rest fun read params hasks =>
      h read params (hasks.mono hsub)
    by_cases hname : name = Selection.typeName
    · rw [select, select, if_pos hname, if_pos hname]
      exact hrest _
    · cases hfield : type.field? name with
      | none =>
        rw [select, select, if_neg hname, if_neg hname, hfield]
        exact hrest _
      | some field =>
        have hread : ⟨field, alias?.getD name, arguments, inner⟩ ∈
            type.reads (.field alias? name arguments directives inner :: rest) := by
          rw [SchemaObject.reads, if_neg hname, hfield]
          exact List.mem_append_left _ (List.mem_singleton_self _)
        have hrespond : ∀ object, run.schema.object? field.type.innermost = some object →
            run.respond inner object = (run.withResolver other).respond inner object := by
          intro object hobject
          funext value path
          rw [respond, respond, select_congr object value path [] inner fun read params hasks =>
            h read params ⟨.deeper hread hobject hasks.reads, hasks.params_eq⟩]
        rw [select_field hname hfield, select_field hname hfield,
          answer_congr hread h hrespond parent path]
        refine bind_congr fun value => ?_
        cases value with
        | none => exact hrest _
        | some value => exact hrest _
  | .inline condition directives inner :: rest =>
    have hsub : type.reads rest ⊆ type.reads (.inline condition directives inner :: rest) := by
      rw [SchemaObject.reads]
      exact List.subset_append_right _ _
    have hrest := fun members => select_congr type parent path members rest fun read params hasks =>
      h read params (hasks.mono hsub)
    by_cases happlies : applies type condition = true
    · have hsub : type.reads inner ⊆ type.reads (.inline condition directives inner :: rest) := by
        rw [SchemaObject.reads, if_pos happlies]
        exact List.subset_append_left _ _
      have hinner := select_congr type parent path members inner fun read params hasks =>
        h read params (hasks.mono hsub)
      rw [select, select, if_pos happlies, if_pos happlies, hinner]
      exact bind_congr fun members => hrest members
    · rw [select, select, if_neg happlies, if_neg happlies]
      exact bind_congr fun members => hrest members
  | .spread name directives :: rest =>
    have hsub : type.reads rest ⊆ type.reads (.spread name directives :: rest) := by
      rw [SchemaObject.reads]
      exact List.Subset.refl _
    rw [select, select]
    exact select_congr type parent path members rest fun read params hasks =>
      h read params (hasks.mono hsub)
termination_by sizeOf selections
decreasing_by
  all_goals simp +arith

end Executor

/-! ### Requests -/

/-- The selections of an operation, with the fragments of the document written out. -/
def Document.writtenOut (document : Document) (operation : Operation) : List Selection :=
  Selection.inlineSpreads document.fragments operation.selections

/-- What an operation of a document selects, without what directives leave out. -/
def Document.selected (document : Document) (bindings : Variables) (operation : Operation) :
    List Selection :=
  Selection.prune bindings (document.writtenOut operation)

namespace Schema

variable {ω : Type} {schema : Schema} {registry : HookRegistry ω} {resolver other : Resolver ω}
  {text : String} {name : Option String} {bindings : Variables}

/-- The execution of an operation. -/
def executor (schema : Schema) (registry : HookRegistry ω) (resolver : Resolver ω)
    (operation : Operation) (bindings : Variables) : Executor ω :=
  { schema, registry, resolver, lookup := operation.lookup bindings }

/-- A request suits a schema, which then executes one of its operations on the root type. -/
structure Executes (schema : Schema) (text : String) (name : Option String) (bindings : Variables)
    (document : Document) (operation : Operation) (root : SchemaObject) : Prop where
  parse_eq : Document.parse text = .ok document
  admits : schema.admits document bindings = true
  executed_eq : document.executed? name = some operation
  root_eq : schema.root? = some root

/-- What the root fields of a request ask the resolver, in order. -/
def questions (schema : Schema) (registry : HookRegistry ω) (resolver : Resolver ω) (text : String)
    (name : Option String) (bindings : Variables) : List (ReadField × ResolveParams) :=
  match Document.parse text with
  | .error _ => []
  | .ok document =>
    if schema.admits document bindings then
      match document.executed? name, schema.root? with
      | some operation, some root =>
        (root.reads (document.selected bindings operation)).filterMap fun read =>
          ((schema.executor registry resolver operation bindings).paramsOf? read).map (read, ·)
      | _, _ => []
    else []

/-- A question is that of a root field of an executed request. -/
theorem exists_read_of_mem_questions {read : ReadField} {params : ResolveParams}
    (h : (read, params) ∈ schema.questions registry resolver text name bindings) :
    ∃ document operation root, schema.Executes text name bindings document operation root ∧
      read ∈ root.reads (document.selected bindings operation) ∧
        (schema.executor registry resolver operation bindings).paramsOf? read = some params := by
  unfold questions at h
  cases hparse : Document.parse text with
  | error e =>
    rw [hparse] at h
    cases h
  | ok document =>
    simp only [hparse] at h
    split at h
    · next hadmits =>
      split at h
      · next operation root hexecuted hroot =>
        obtain ⟨found, hread, h⟩ := List.mem_filterMap.1 h
        obtain ⟨asked, hparams, heq⟩ := Option.map_eq_some_iff.1 h
        cases heq
        exact ⟨document, operation, root, ⟨hparse, hadmits, hexecuted, hroot⟩, hread, hparams⟩
      · cases h
    · cases h

theorem executeSelections_congr {run : Executor ω} {selections : List Selection}
    (h : ∀ root read params, run.schema.root? = some root →
      run.Asks root selections read params → run.resolver params = other params) :
    executeSelections run selections = executeSelections (run.withResolver other) selections := by
  funext world
  have hschema : (run.withResolver other).schema = run.schema := rfl
  rw [executeSelections, executeSelections, hschema]
  cases hroot : run.schema.root? with
  | none => rfl
  | some root =>
    dsimp only
    rw [Executor.select_congr root _ _ _ selections fun read params => h root read params hroot]

/-- Two resolvers that agree on what a request asks them answer the request alike. -/
theorem execute_congr (h : ∀ document operation root read params,
      schema.Executes text name bindings document operation root →
      (schema.executor registry resolver operation bindings).Asks root
          (document.selected bindings operation) read params →
        resolver params = other params) :
    schema.execute registry resolver text name bindings =
      schema.execute registry other text name bindings := by
  unfold execute
  cases hparse : Document.parse text with
  | error e => rfl
  | ok document =>
    by_cases hadmits : schema.admits document bindings = true
    · simp only [if_pos hadmits]
      cases hexecuted : document.executed? name with
      | none => rfl
      | some operation =>
        have hsame := @executeSelections_congr _ other
          (schema.executor registry resolver operation bindings)
          (document.selected bindings operation) fun root read params hroot =>
            h document operation root read params ⟨hparse, hadmits, hexecuted, hroot⟩
        exact congrArg (some <$> ·) hsame
    · simp only [if_neg hadmits]

end Schema

end ModelGraph
