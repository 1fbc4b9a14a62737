import ModelGraph.Proofs.Query.Flat
import ModelGraph.Proofs.Request.Literals
import ModelGraph.Proofs.Schema.Paths
import ModelGraph.Proofs.Schema.Suits

/-!
# Requests compiled beside their execution

A request can be compiled from its text alone. What it compiles to for a root field is what the
execution of the request gives the resolver of that field, before enum items are turned back: both
read the same selections, one with fragments entered on the way and one with fragments written out.
They differ in their variables. Compiling reads the bindings it is given and nothing else, so they
agree where every variable that is used has a binding, and a variable that is left to its default
has to be bound to it.

## Main definitions

- `Selection.allArguments`, `Selection.allVariables`, `Selection.allDirectives` — what is written in
  selections, at every level
- `Operation.Offers` — bindings that hold what variables of an operation stand for

## Main statements

- `Schema.Executes.compileRequest_eq` — root fields compile to what their resolvers are given
- `Schema.compileRequest_oldUsers` — a variable that is left to its default is null
-/

namespace ModelGraph

/-! ### Selections -/

namespace Selection

/-- The arguments of all fields, at any level. -/
def allArguments : List Selection → List (String × ArgValue)
  | [] => []
  | .field _ _ own _ inner :: rest => own ++ allArguments inner ++ allArguments rest
  | .inline _ _ inner :: rest => allArguments inner ++ allArguments rest
  | .spread _ _ :: rest => allArguments rest
termination_by selections => countAll selections
decreasing_by
  all_goals
    simp only [countAll, count]
    omega

/-- The variables in the arguments of all fields. -/
def allVariables (selections : List Selection) : List String :=
  (allArguments selections).flatMap fun argument => argument.2.variableNames

/-- The directives of all selections, at any level. -/
def allDirectives : List Selection → List Directive
  | [] => []
  | .field _ _ _ own inner :: rest => own ++ allDirectives inner ++ allDirectives rest
  | .inline _ own inner :: rest => own ++ allDirectives inner ++ allDirectives rest
  | .spread _ own :: rest => own ++ allDirectives rest
termination_by selections => countAll selections
decreasing_by
  all_goals
    simp only [countAll, count]
    omega

/-- Where there are no directives nothing is left out. -/
theorem prune_eq_self (bindings : Variables) : (selections : List Selection) →
    allDirectives selections = [] → prune bindings selections = selections
  | [], _ => by rw [prune]
  | .field alias? name own found inner :: rest, h => by
    rw [allDirectives, List.append_eq_nil_iff, List.append_eq_nil_iff] at h
    obtain ⟨⟨rfl, hinner⟩, hrest⟩ := h
    rw [prune, List.all_nil, if_pos rfl, prune_eq_self bindings inner hinner,
      prune_eq_self bindings rest hrest]
  | .inline condition found inner :: rest, h => by
    rw [allDirectives, List.append_eq_nil_iff, List.append_eq_nil_iff] at h
    obtain ⟨⟨rfl, hinner⟩, hrest⟩ := h
    rw [prune, List.all_nil, if_pos rfl, prune_eq_self bindings inner hinner,
      prune_eq_self bindings rest hrest]
  | .spread name found :: rest, h => by
    rw [allDirectives, List.append_eq_nil_iff] at h
    obtain ⟨rfl, hrest⟩ := h
    rw [prune, List.all_nil, if_pos rfl, prune_eq_self bindings rest hrest]

end Selection

namespace SelectionTree

open Selection

variable {convert other : ArgValue → Except SelectionError Json} {entered : List String}

theorem convertAll_congr {arguments : List (String × ArgValue)}
    (h : ∀ argument ∈ arguments, convert argument.2 = other argument.2) :
    convertAll convert arguments = convertAll other arguments := by
  induction arguments with
  | nil => rfl
  | cons argument rest ih =>
    obtain ⟨hargument, hrest⟩ := List.forall_mem_cons.1 h
    rw [convertAll, convertAll, hargument, ih hrest]

/-- The trees of selections depend only on what their own arguments are read as, where there are no
fragments to enter. -/
theorem expand_congr : (selections : List Selection) →
    (∀ argument ∈ allArguments selections, convert argument.2 = other argument.2) →
    expand convert entered ∅ selections = expand other entered ∅ selections
  | [], _ => by rw [expand, expand]
  | .field alias? name own directives inner :: rest, h => by
    rw [allArguments, List.forall_mem_append, List.forall_mem_append] at h
    rw [expand, expand, convertAll_congr h.1.1, expand_congr inner h.1.2, expand_congr rest h.2]
  | .inline condition directives inner :: rest, h => by
    rw [allArguments, List.forall_mem_append] at h
    rw [expand, expand, expand_congr inner h.1, expand_congr rest h.2]
  | .spread name directives :: rest, h => by
    have hfirst : expand convert entered ∅ [.spread name directives] =
        expand other entered ∅ [.spread name directives] := by
      by_cases hentered : name ∈ entered
      · rw [expand_spread_of_mem hentered, expand_spread_of_mem hentered]
      · rw [expand_spread_of_get?_eq_none hentered rfl, expand_spread_of_get?_eq_none hentered rfl]
    rw [expand_cons, hfirst, expand_congr rest (by rwa [allArguments] at h)]
    conv_rhs => rw [expand_cons]

/-- Writing out fragments changes no tree when the spreads that stay are of no fragment that was
there to begin with. -/
theorem expand_inlineSpreads_of_unknown {all : OrderedMap String Fragment} (entered : List String)
    (fragments : OrderedMap String Fragment) (hleft : IsLeft all entered fragments)
    (hentered : ∀ name ∈ entered, (all.get? name).isSome) : (selections : List Selection) →
    (∀ name ∈ spreads (inlineSpreads fragments selections), all.get? name = none) →
    expand convert [] ∅ (inlineSpreads fragments selections) =
      expand convert entered fragments selections
  | [], _ => by simp [inlineSpreads, expand]
  | selection :: rest, h => by
    rw [inlineSpreads_cons, spreads_append, List.forall_mem_append] at h
    obtain ⟨hown, hrest⟩ := h
    have hsame := expand_inlineSpreads_of_unknown entered fragments hleft hentered rest hrest
    -- What holds of the first selection on its own carries over to the whole.
    suffices hfirst : expand convert [] ∅ (inlineSpreads fragments [selection]) =
        expand convert entered fragments [selection] by
      rw [inlineSpreads_cons, expand_append, expand_cons, hfirst, hsame]
    cases hselection : selection with
    | field alias? name own directives inner =>
      rw [hselection, inlineSpreads, inlineSpreads, spreads, spreads, List.append_nil] at hown
      rw [inlineSpreads, inlineSpreads, expand_field, expand_field,
        expand_inlineSpreads_of_unknown entered fragments hleft hentered inner hown]
    | inline condition directives inner =>
      rw [hselection, inlineSpreads, inlineSpreads, spreads, spreads, List.append_nil] at hown
      rw [inlineSpreads, inlineSpreads, expand_inline, expand_inline,
        expand_inlineSpreads_of_unknown entered fragments hleft hentered inner hown]
    | spread name directives =>
      cases hget : fragments.get? name with
      | none =>
        have hstays : inlineSpreads fragments [.spread name directives] =
            [.spread name directives] := by
          simp only [inlineSpreads]
          split
          · rfl
          · next hsome => exact absurd (hget.symm.trans hsome) (by simp)
        rw [hselection, hstays, spreads, spreads, List.forall_mem_singleton] at hown
        have hnew : name ∉ entered := fun hmem => by simpa [hown] using hentered name hmem
        rw [hstays, expand_spread_of_get?_eq_none List.not_mem_nil rfl,
          expand_spread_of_get?_eq_none hnew hget]
      | some fragment =>
        have hknown := hleft.get?_of_get? hget
        have hnew : name ∉ entered := fun hmem => by
          rw [hleft, if_pos hmem] at hget
          cases hget
        rw [hselection, inlineSpreads_spread hget, spreads, spreads, List.append_nil] at hown
        rw [inlineSpreads_spread hget, expand_inline, expand_spread_of_get?_eq_some hnew hget]
        refine expand_inlineSpreads_of_unknown (name :: entered) (fragments.erase name)
          (hleft.enter name) (List.forall_mem_cons.2 ⟨?_, hentered⟩) fragment.selections hown
        rw [hknown]
        rfl
-- As in the expansion, a fragment that is entered leaves the fragments that may still be.
termination_by selections => Fragment.countAll fragments + Selection.countAll selections
decreasing_by
  all_goals simp only [Selection.countAll]
  · have hpos := Selection.count_pos selection
    omega
  all_goals rw [hselection, Selection.count]
  · omega
  · omega
  · have htaken := Fragment.countAll_erase_le hget
    omega

/-- Where every argument can be read and nothing is spread, nothing fails. -/
theorem failuresOf_expand_eq_nil
    (hconvert : ∀ arguments, ∃ converted, convertAll convert arguments = .ok converted) :
    (selections : List Selection) → spreads selections = [] →
      failuresOf (expand convert [] ∅ selections) = []
  | [], _ => by
    rw [expand]
    rfl
  | .field alias? name own directives inner :: rest, h => by
    rw [spreads, List.append_eq_nil_iff] at h
    obtain ⟨converted, hconverted⟩ := hconvert own
    have hinner := failuresOf_expand_eq_nil hconvert inner h.1
    rw [failuresOf_expand_cons_eq_nil_iff, expand_field, failuresOf_singleton, failures_eq]
    refine ⟨List.append_eq_nil_iff.2 ⟨?_, hinner⟩, failuresOf_expand_eq_nil hconvert rest h.2⟩
    rw [argumentsError?, SelectionTree.arguments, hconverted]
    rfl
  | .inline condition directives inner :: rest, h => by
    rw [spreads, List.append_eq_nil_iff] at h
    rw [failuresOf_expand_cons_eq_nil_iff, expand_inline]
    exact ⟨failuresOf_expand_eq_nil hconvert inner h.1, failuresOf_expand_eq_nil hconvert rest h.2⟩
  | .spread name directives :: rest, h => by
    rw [spreads] at h
    cases h

end SelectionTree

/-! ### Root fields -/

namespace Schema

open SelectionTree

variable {ω : Type} {schema : Schema}

/-- Selections that fit a type have trees: what may be missing is missing below a field. -/
theorem exists_expand_of_calls? {convert : ArgValue → Except SelectionError Json}
    {parent : SchemaType} : (selections : List Selection) → (calls : List Call) →
      schema.calls? parent selections = some calls →
      ∃ trees, expand convert [] ∅ selections = .ok trees
  | [], _, _ => ⟨[], by rw [expand]⟩
  | .field alias? name own directives inner :: rest, calls, h => by
    obtain ⟨others, hothers, -⟩ := exists_calls?_tail h
    obtain ⟨trees, htrees⟩ := exists_expand_of_calls? rest others hothers
    rw [expand_cons, expand_field, htrees]
    exact ⟨_, rfl⟩
  | .inline condition directives inner :: rest, calls, h => by
    obtain ⟨others, _, target, below, hothers, -, hbelow, -⟩ := calls?_inline_cons h
    obtain ⟨own, hown⟩ := exists_expand_of_calls? inner below hbelow
    obtain ⟨trees, htrees⟩ := exists_expand_of_calls? rest others hothers
    rw [expand_cons, expand_inline, hown, htrees]
    exact ⟨_, rfl⟩
  | .spread name directives :: rest, calls, h => by
    rw [calls?] at h
    cases h

end Schema

/-- The tree of a field that is read is one of the selections. -/
theorem Executor.treeOf_mem_of_reads {ω : Type} {run : Executor ω} {type : SchemaObject}
    {read : ReadField} : (selections : List Selection) → (trees : List SelectionTree) →
      SelectionTree.expand run.convert [] ∅ selections = .ok trees →
      read ∈ type.reads selections → run.treeOf read ∈ trees
  | [], _, _, hread => by
    rw [SchemaObject.reads] at hread
    cases hread
  | .field alias? name own directives inner :: rest, trees, h, hread => by
    rw [SelectionTree.expand_cons, SelectionTree.expand_field] at h
    obtain ⟨_, hown, h⟩ := bind_eq_ok_iff.1 h
    obtain ⟨others, hothers, h⟩ := bind_eq_ok_iff.1 h
    cases hown
    cases h
    rw [SchemaObject.reads, List.mem_append, Option.mem_toList, Option.map_eq_some_iff] at hread
    rcases hread with ⟨field, hfield, rfl⟩ | hread
    · split at hfield
      · cases hfield
      · rw [treeOf, tree, SchemaObject.name_of_field? hfield]
        exact List.mem_append_left _ (List.mem_singleton_self _)
    · exact List.mem_append_right _ (treeOf_mem_of_reads rest others hothers hread)
  | .inline condition directives inner :: rest, trees, h, hread => by
    rw [SelectionTree.expand_cons, SelectionTree.expand_inline] at h
    obtain ⟨own, hown, h⟩ := bind_eq_ok_iff.1 h
    obtain ⟨others, hothers, h⟩ := bind_eq_ok_iff.1 h
    cases h
    rw [SchemaObject.reads, List.mem_append] at hread
    rcases hread with hread | hread
    · split at hread
      · exact List.mem_append_left _ (treeOf_mem_of_reads inner own hown hread)
      · cases hread
    · exact List.mem_append_right _ (treeOf_mem_of_reads rest others hothers hread)
  | .spread name directives :: rest, trees, h, hread => by
    rw [SelectionTree.expand_cons,
      SelectionTree.expand_spread_of_get?_eq_none List.not_mem_nil rfl] at h
    cases h

/-- What is executed is what compiling takes. -/
theorem Document.operation?_of_executed? {document : Document} {name : Option String}
    {operation : Operation} (h : document.executed? name = some operation) :
    document.operation? name = .ok operation := by
  obtain ⟨operations, fragments⟩ := document
  cases operations with
  | anonymous first =>
    cases name with
    | none =>
      cases h
      rfl
    | some name => cases h
  | named operations =>
    cases name with
    | some name =>
      simp only [executed?] at h
      simp only [operation?, h]
    | none =>
      simp only [executed?] at h
      split at h
      · next found hvalues =>
        cases h
        simp only [operation?, hvalues]
      · cases h

/-- Bindings hold what each of some variables stands for in an operation: the value that it is
given, or else its default. -/
def Operation.Offers (operation : Operation) (given offered : Variables) (names : List String) :
    Prop :=
  ∀ name ∈ names, ∃ definition ∈ operation.variableDefs, definition.name = name ∧
    ∃ value, (given.get? name <|> definition.default) = some value ∧ offered.get? name = some value

namespace Operation

/-- The given bindings, with their defaults for the variables that are given no value. -/
def filled (operation : Operation) (given : Variables) : Variables :=
  .ofList (operation.variableDefs.filterMap fun definition =>
    definition.default.map fun value => (definition.name, value)) ++ given

theorem keys_defaults_sublist : (definitions : List VariableDef) →
    ((definitions.filterMap fun definition =>
      definition.default.map fun value => (definition.name, value)).map Prod.fst).Sublist
        (definitions.map VariableDef.name)
  | [] => .slnil
  | first :: rest => by
    have hrest := keys_defaults_sublist rest
    rw [List.map_cons, List.filterMap_cons]
    cases first.default with
    | none => exact hrest.cons first.name
    | some value => exact hrest.cons_cons first.name

/-- Bindings that are filled with defaults hold what variables stand for. -/
theorem offers_filled {operation : Operation} {given : Variables} {names : List String}
    (hdefinitions : (operation.variableDefs.map VariableDef.name).Nodup)
    (h : ∀ name ∈ names, ∃ definition ∈ operation.variableDefs, definition.name = name ∧
      (given.get? name <|> definition.default).isSome) :
    operation.Offers given (operation.filled given) names := by
  intro name hname
  obtain ⟨definition, hmem, rfl, hsome⟩ := h name hname
  obtain ⟨value, hvalue⟩ := Option.isSome_iff_exists.1 hsome
  refine ⟨definition, hmem, rfl, value, hvalue, ?_⟩
  have hget : (operation.filled given).get? definition.name = (given.get? definition.name).or _ :=
    OrderedMap.get?_insertMany_toList
  rw [hget]
  cases hgiven : given.get? definition.name with
  | some found =>
    rw [hgiven] at hvalue
    exact hvalue
  | none =>
    rw [hgiven] at hvalue
    have hdefault : definition.default = some value := hvalue
    have hkeys := hdefinitions.sublist (keys_defaults_sublist operation.variableDefs)
    rw [Option.none_or, OrderedMap.get?_ofList_eq_some_iff hkeys, List.mem_filterMap]
    exact ⟨definition, hmem, by rw [hdefault]; rfl⟩

end Operation

namespace Schema

open SelectionTree

variable {ω : Type} {schema : Schema} {registry : HookRegistry ω} {resolver : Resolver ω}
  {text : String} {name : Option String} {bindings offered : Variables} {document : Document}
  {operation : Operation} {root : SchemaObject}

/-- Arguments are read alike where offered bindings hold the variables. -/
theorem Executes.convert_eq (h : schema.Executes text name bindings document operation root)
    {value : ArgValue} (hoffers : operation.Offers bindings offered value.variableNames) :
    (schema.executor registry resolver operation bindings).convert value =
      .ok (value.toJson offered) := by
  obtain ⟨_, -, -, -, hnames⟩ := h.exists_calls
  have hvalue : value.substitute (operation.lookup bindings) = .ok (value.bound offered) := by
    refine ArgValue.substitute_eq_bound value fun name hname => ?_
    obtain ⟨definition, hmem, rfl, found, hvalue, hoffered⟩ := hoffers name hname
    have hfind : operation.variableDefs.find? (fun other => other.name = definition.name) =
        some definition := find?_key_of_nodup hnames hmem
    rw [Operation.lookup, hfind, Option.bind_some, Variables.orNull, hoffered, Option.getD_some]
    simp only [Option.orElse_eq_orElse, Option.orElse_eq_or] at hvalue ⊢
    rw [← Option.or_assoc, hvalue, Option.some_or]
  have hconst : value.substitute (schema.executor registry resolver operation bindings).lookup =
      .ok (value.bound offered) := hvalue
  rw [Executor.convert, hconst, ArgValue.toJson_eq_toJson_bound]

/-- Compiling a request that is executed, without directives, with bindings that hold what its
variables stand for. The trees of the root fields that are executed are among the roots that are
compiled. Where no two of these have one response key, what the request compiles to under the key of
a root field is what the tree of the field compiles to in the execution, and the resolver is given
just this, with the enum items of its filter turned back. The request compiles unless a spread is
left where it is not looked at, below the name of a type. -/
theorem Executes.compileRequest_eq
    (h : schema.Executes text name bindings document operation root)
    (hdirectives : Selection.allDirectives (document.writtenOut operation) = [])
    (hoffers : operation.Offers bindings offered
      (Selection.allVariables (document.writtenOut operation))) :
    let run := schema.executor registry resolver operation bindings
    ∃ roots, requestRoots text name offered = .ok roots ∧
      (∀ read ∈ root.reads (document.selected bindings operation), run.treeOf read ∈ roots) ∧
      ((roots.map SelectionTree.responseKey).Nodup →
        ∀ compiled, compileRequest text name offered = .ok compiled →
          ∀ read ∈ root.reads (document.selected bindings operation),
            ∃ query, compiled.get? read.key = some query ∧ (run.treeOf read).compile = .ok query ∧
              ∀ params, run.paramsOf? read = some params →
                ∃ model, read.field.reader.model? = some model ∧
                  params.query = query.restoreEnums schema.graph model.name) ∧
      (Selection.spreads (document.writtenOut operation) = [] →
        ∃ compiled, compileRequest text name offered = .ok compiled) := by
  intro run
  let selections := document.writtenOut operation
  obtain ⟨calls, hcalls, -, hunknown, -⟩ := h.exists_calls
  have hselected : document.selected bindings operation = selections :=
    Selection.prune_eq_self bindings _ hdirectives
  have hconvert : ∀ argument ∈ Selection.allArguments selections,
      run.convert argument.2 = .ok (argument.2.toJson offered) := fun argument hargument =>
    h.convert_eq fun name hname => hoffers name (List.mem_flatMap.2 ⟨argument, hargument, hname⟩)
  -- The fragments of the document are entered in turn when it is compiled, and written out
  -- beforehand when it is executed.
  have hroots : ∀ bindings, document.roots operation bindings =
      expand (fun value => .ok (value.toJson bindings)) [] ∅ selections := fun bindings =>
    (expand_inlineSpreads_of_unknown [] document.fragments (IsLeft.start _) (by simp) _
      hunknown).symm
  have hsame : document.roots operation offered = expand run.convert [] ∅ selections :=
    (hroots offered).trans (expand_congr selections hconvert).symm
  obtain ⟨roots, htrees⟩ := @exists_expand_of_calls? schema run.convert _ selections calls hcalls
  have hchosen := Document.operation?_of_executed? h.executed_eq
  have hrequest : requestRoots text name offered = .ok roots :=
    requestRoots_eq_ok_iff.2 ⟨document, h.parse_eq, operation, hchosen, hsame.trans htrees⟩
  have hmem : ∀ read ∈ root.reads (document.selected bindings operation), run.treeOf read ∈ roots :=
    fun read hread => Executor.treeOf_mem_of_reads selections roots htrees (hselected ▸ hread)
  refine ⟨roots, hrequest, hmem, fun hkeys compiled hcompiled read hread => ?_, fun hnone => ?_⟩
  · obtain ⟨others, hothers, hread', rfl⟩ := compileRequest_eq_ok_iff.1 hcompiled
    obtain rfl := Except.ok.inj (hrequest.symm.trans hothers)
    have htree := hmem read hread
    have hquery : (run.treeOf read).compile = .ok (run.treeOf read).query :=
      SelectionTree.compile_eq_ok_iff.2 ⟨hread' _ htree, rfl⟩
    refine ⟨(run.treeOf read).query, ?_, hquery, fun params hparams => ?_⟩
    · rw [OrderedMap.get?_ofList_eq_some_iff (by rwa [List.map_map])]
      exact List.mem_map.2 ⟨_, htree, rfl⟩
    · obtain ⟨model, args, query, hmodel, -, hother, rfl⟩ :=
        Executor.paramsOf?_eq_some_iff.1 hparams
      obtain rfl := Except.ok.inj (hquery.symm.trans hother)
      exact ⟨model, hmodel, rfl⟩
  · rw [compileRequest_eq_compile h.parse_eq, Document.exists_compile_eq_ok_iff hchosen, hroots]
    exact failuresOf_expand_eq_nil
      (fun arguments => ⟨_, convertAll_ok offered arguments⟩) selections hnone

/-- What can be checked of the operations of a text holds of the one that is executed. -/
theorem Executes.of_all {p : Document → Operation → Bool}
    (h : schema.Executes text name bindings document operation root)
    (hall : ((Document.parse text).toOption.all fun document =>
      (document.executed? name).all fun operation => p document operation) = true) :
    p document operation = true := by
  rw [h.parse_eq] at hall
  change (document.executed? name).all (p document) = true at hall
  rwa [h.executed_eq, Option.all_some] at hall

end Schema

/-- Users with an age. -/
def ModelDecl.agedUser : ModelDecl where
  key := "users"
  name := "User"
  fields := [.scalar "_id" .objectId, .scalar "age" .number]

/-- A request with a variable that has a default, and a fragment. -/
def agedRequest : String :=
  "query($min: Float = 5, $max: Float) \x7b userMany \x7b ...Aged \x7d \x7d" ++
    " fragment Aged on User \x7b age(gt: $min, lt: $max) \x7d"

/-- Bindings for the other variable. -/
def agedBindings : Variables := .ofList [("max", .number (.int 65))]

theorem Schema.compileRequest_eq_agedUsers :
    ∃ graph schema document operation root read params compiled query model,
      (Run.mk {} ⟨0⟩ 0).synthesize [.agedUser] = .ok graph ∧
      ofGraph graph ({} : HookRegistry Unit) = .ok schema ∧
      schema.Executes agedRequest none agedBindings document operation root ∧
      Selection.allDirectives (document.writtenOut operation) = [] ∧
      operation.Offers agedBindings (operation.filled agedBindings)
        (Selection.allVariables (document.writtenOut operation)) ∧
      read ∈ root.reads (document.selected agedBindings operation) ∧
      (schema.executor {} .nothing operation agedBindings).paramsOf? read = some params ∧
      params.query.filter.get? "age" =
        some (.combined .and [⟨.gt, .number (.int 5)⟩, ⟨.lt, .number (.int 65)⟩]) ∧
      compileRequest agedRequest none (operation.filled agedBindings) = .ok compiled ∧
      compiled.get? read.key = some query ∧
      params.query = query.restoreEnums schema.graph model := by
  obtain ⟨graph, schema, document, operation, root, read, params, hgraph, hschema, hexecutes, hread,
    hparams, hcheck⟩ := @exists_question_of_any Unit {} .nothing agedRequest none agedBindings
      (Run.mk {} ⟨0⟩ 0) [.agedUser] (fun _ _ params =>
        decide (params.query.filter.get? "age" =
          some (.combined .and [⟨.gt, .number (.int 5)⟩, ⟨.lt, .number (.int 65)⟩])))
      (by decide +kernel)
  have hwritten := @Executes.of_all schema agedRequest none agedBindings document operation root
    (fun document operation => decide (
      Selection.allDirectives (document.writtenOut operation) = [] ∧
      Selection.spreads (document.writtenOut operation) = [] ∧
      (∀ name ∈ Selection.allVariables (document.writtenOut operation),
        ∃ definition ∈ operation.variableDefs, definition.name = name ∧
          (agedBindings.get? name <|> definition.default).isSome) ∧
      (requestRoots agedRequest none (operation.filled agedBindings)).toOption.all fun roots =>
        decide (roots.map SelectionTree.responseKey).Nodup))
    hexecutes (by decide +kernel)
  obtain ⟨hdirectives, hspreads, hsome, hall⟩ := of_decide_eq_true hwritten
  obtain ⟨_, -, -, -, hnames⟩ := hexecutes.exists_calls
  have hoffers := Operation.offers_filled hnames hsome
  obtain ⟨roots, hroots, -, hqueries, hcompiles⟩ :=
    hexecutes.compileRequest_eq hdirectives hoffers
  obtain ⟨compiled, hcompiled⟩ := hcompiles hspreads
  rw [hroots] at hall
  obtain ⟨query, hquery, -, hsame⟩ :=
    hqueries (of_decide_eq_true hall) compiled hcompiled read hread
  obtain ⟨model, -, hrestored⟩ := hsame params hparams
  exact ⟨graph, schema, document, operation, root, read, params, compiled, query, model.name,
    hgraph, hschema, hexecutes, hdirectives, hoffers, hread, hparams, of_decide_eq_true hcheck,
    hcompiled, hquery, hrestored⟩

/-- A request that leaves its variable to the default. -/
def oldUsersRequest : String :=
  "query($min: Float = 5) \x7b userMany \x7b age(gt: $min) \x7d \x7d"

/-- A variable that is left to its default is null when the request is compiled, and the default
when it is executed. -/
theorem Schema.compileRequest_oldUsers :
    ∃ graph schema document operation root read params compiled query,
      (Run.mk {} ⟨0⟩ 0).synthesize [.agedUser] = .ok graph ∧
      ofGraph graph ({} : HookRegistry Unit) = .ok schema ∧
      schema.Executes oldUsersRequest none ∅ document operation root ∧
      Selection.allDirectives (document.writtenOut operation) = [] ∧
      (∀ name ∈ Selection.allVariables (document.writtenOut operation),
        ∃ definition ∈ operation.variableDefs, definition.name = name ∧
          ((∅ : Variables).get? name <|> definition.default).isSome) ∧
      read ∈ root.reads (document.selected ∅ operation) ∧
      (schema.executor {} .nothing operation ∅).paramsOf? read = some params ∧
      params.query.filter.get? "age" = some (.single ⟨.gt, .number (.int 5)⟩) ∧
      compileRequest oldUsersRequest none ∅ = .ok compiled ∧ compiled.keys = ["userMany"] ∧
      compiled.get? read.key = some query ∧
      query.filter.get? "age" = some (.single ⟨.gt, .null⟩) ∧
      ∀ model, params.query ≠ query.restoreEnums schema.graph model := by
  obtain ⟨graph, schema, document, operation, root, read, params, hgraph, hschema, hexecutes, hread,
    hparams, hcheck⟩ := @exists_question_of_any Unit {} .nothing oldUsersRequest none ∅
      (Run.mk {} ⟨0⟩ 0) [.agedUser] (fun _ read params => decide (read.key = "userMany" ∧
        params.query.filter.get? "age" = some (.single ⟨.gt, .number (.int 5)⟩)))
      (by decide +kernel)
  obtain ⟨hkey, hlive⟩ := of_decide_eq_true hcheck
  have hwritten := @Executes.of_all schema oldUsersRequest none ∅ document operation root
    (fun document operation => decide (
      Selection.allDirectives (document.writtenOut operation) = [] ∧
      ∀ name ∈ Selection.allVariables (document.writtenOut operation),
        ∃ definition ∈ operation.variableDefs, definition.name = name ∧
          ((∅ : Variables).get? name <|> definition.default).isSome))
    hexecutes (by decide +kernel)
  obtain ⟨hdirectives, hsome⟩ := of_decide_eq_true hwritten
  have hoffline : ((compileRequest oldUsersRequest none ∅).toOption.any fun compiled =>
      decide (compiled.keys = ["userMany"] ∧ ∃ query ∈ compiled.get? "userMany",
        query.filter.get? "age" = some (.single ⟨.gt, .null⟩))) = true := by
    decide +kernel
  obtain ⟨compiled, hcompiled, hoffline⟩ := exists_eq_ok_of_any hoffline
  obtain ⟨hkeys, query, hget, hnull⟩ := of_decide_eq_true hoffline
  refine ⟨graph, schema, document, operation, root, read, params, compiled, query, hgraph, hschema,
    hexecutes, hdirectives, hsome, hread, hparams, hlive, hcompiled, hkeys, hkey ▸ hget, hnull,
    fun model heq => ?_⟩
  rw [heq, CompiledQuery.restoreEnums, OrderedMap.get?_mapWithKey, hnull, Option.map_some] at hlive
  cases henum : schema.graph.enumAt? model "age" with
  | none =>
    rw [henum] at hlive
    cases hlive
  | some type =>
    simp [henum, FilterNode.mapValues, EnumType.restore] at hlive

end ModelGraph
