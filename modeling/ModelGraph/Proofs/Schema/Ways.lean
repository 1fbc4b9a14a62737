import ModelGraph.Proofs.Query.Predicates
import ModelGraph.Proofs.Request.Named
import ModelGraph.Proofs.Schema.Asked

/-!
# Ways to selected fields

The paths of a query are made of the names of fields alone. Read along the types of a schema, such a
path is a way: every step is a field of the type that the step before leads to, or of the type that
an inline fragment is on. Below `__typename`, where requests are not looked at, no type is known.

## Main definitions

- `FieldStep` — a step of a way, with the output field that it reads
- `Schema.Leads` — the ways that lead from selections to the arguments of a field
- `Schema.ways` — the ways from selections, listed

## Main statements

- `Executor.exists_way_of_filter`, `Executor.exists_way_of_sort` — every path of a query is that of
  a way
-/

namespace ModelGraph

/-- The output field whose stored value a field has. -/
def FieldReader.output? : FieldReader → Option OutputField
  | .stored _ output => some output
  | .many _ | .byId _ | .count | .edges | .node _ | .cursor => none

/-- A step of the way to a selected field: the type that it is selected from, if that is known, and
its name. -/
structure FieldStep where
  owner? : Option SchemaType
  name : String

namespace FieldStep

/-- The field of the owner that the step selects, when the owner is an object. -/
def field? (step : FieldStep) : Option SchemaField :=
  match step.owner? with
  | some (.object type) => type.field? step.name
  | _ => none

/-- The output field that the step reads, when it reads a stored one. -/
def output? (step : FieldStep) : Option OutputField :=
  step.field?.bind fun field => field.reader.output?

/-- The name that the value of the step is stored under; a step that reads no stored field keeps its
own. -/
def storageName (step : FieldStep) : String :=
  (step.output?.map OutputField.source).getD step.name

end FieldStep

namespace Schema

/-- The type of the fields below a step. -/
def below? (schema : Schema) (step : FieldStep) : Option SchemaType :=
  if step.name = Selection.typeName then none
  else
    step.owner?.bind fun owner =>
      (owner.selectable? step.name).bind fun found => schema.type? found.1.innermost

/-- The type of the fields in an inline fragment. -/
def within? (schema : Schema) (owner? : Option SchemaType) (condition : Option String) :
    Option SchemaType :=
  match condition with
  | none => owner?
  | some name => owner?.bind fun _ => schema.type? name

/-- A way leads from the selections on a type to the arguments of a field. -/
inductive Leads (schema : Schema) :
    Option SchemaType → List Selection → List FieldStep → List (String × ArgValue) → Prop
  | field {owner? : Option SchemaType} {selections inner : List Selection} {alias? : Option String}
      {name : String} {arguments : List (String × ArgValue)} {directives : List Directive} :
      .field alias? name arguments directives inner ∈ selections →
      Leads schema owner? selections [⟨owner?, name⟩] arguments
  | deeper {owner? : Option SchemaType} {selections inner : List Selection}
      {alias? : Option String} {name : String} {own arguments : List (String × ArgValue)}
      {directives : List Directive} {way : List FieldStep} :
      .field alias? name own directives inner ∈ selections →
      Leads schema (schema.below? ⟨owner?, name⟩) inner way arguments →
      Leads schema owner? selections (⟨owner?, name⟩ :: way) arguments
  | inline {owner? : Option SchemaType} {selections inner : List Selection}
      {condition : Option String} {arguments : List (String × ArgValue)}
      {directives : List Directive} {way : List FieldStep} :
      .inline condition directives inner ∈ selections →
      Leads schema (schema.within? owner? condition) inner way arguments →
      Leads schema owner? selections way arguments

variable {schema : Schema} {owner? : Option SchemaType} {selections : List Selection}
  {way : List FieldStep} {arguments : List (String × ArgValue)}

theorem Leads.ne_nil (h : schema.Leads owner? selections way arguments) : way ≠ [] := by
  induction h with
  | field => exact List.cons_ne_nil _ _
  | deeper => exact List.cons_ne_nil _ _
  | inline _ _ ih => exact ih

theorem Leads.mono {others : List Selection} (h : schema.Leads owner? selections way arguments)
    (hsub : selections ⊆ others) : schema.Leads owner? others way arguments := by
  cases h with
  | field hmem => exact .field (hsub hmem)
  | deeper hmem hway => exact .deeper (hsub hmem) hway
  | inline hmem hway => exact .inline (hsub hmem) hway

/-- The steps of a way have the names of written fields. -/
theorem Leads.isSegment (h : schema.Leads owner? selections way arguments)
    (hnamed : Selection.Named selections) :
    ∀ name ∈ way.map FieldStep.name, Path.IsSegment name := by
  induction h with
  | field hmem => exact List.forall_mem_singleton.2 (hnamed.of_field hmem).1
  | deeper hmem _ ih =>
    obtain ⟨hname, hinner⟩ := hnamed.of_field hmem
    exact List.forall_mem_cons.2 ⟨hname, ih hinner⟩
  | inline hmem _ ih => exact ih (hnamed.of_inline hmem)

/-- The ways from selections on a type, with the arguments that they lead to. -/
def ways (schema : Schema) (owner? : Option SchemaType) :
    List Selection → List (List FieldStep × List (String × ArgValue))
  | [] => []
  | .field _ name arguments _ inner :: rest =>
    let step : FieldStep := ⟨owner?, name⟩
    ([step], arguments) ::
      ((ways schema (schema.below? step) inner).map fun entry => (step :: entry.1, entry.2)) ++
        ways schema owner? rest
  | .inline condition _ inner :: rest =>
    ways schema (schema.within? owner? condition) inner ++ ways schema owner? rest
  | .spread _ _ :: rest => ways schema owner? rest
termination_by selections => Selection.countAll selections
decreasing_by
  all_goals
    simp only [Selection.countAll, Selection.count]
    omega

theorem ways_subset_cons (first : Selection) (rest : List Selection) :
    schema.ways owner? rest ⊆ schema.ways owner? (first :: rest) := by
  cases first with
  | field | inline =>
    rw [ways]
    exact List.subset_append_right _ _
  | spread =>
    rw [ways]
    exact List.Subset.refl _

theorem mem_ways_of_field {inner : List Selection} {alias? : Option String} {name : String}
    {own : List (String × ArgValue)} {directives : List Directive}
    (h : .field alias? name own directives inner ∈ selections) :
    ([⟨owner?, name⟩], own) ∈ schema.ways owner? selections ∧
      ∀ way arguments, (way, arguments) ∈ schema.ways (schema.below? ⟨owner?, name⟩) inner →
        (⟨owner?, name⟩ :: way, arguments) ∈ schema.ways owner? selections := by
  induction selections with
  | nil => cases h
  | cons first rest ih =>
    rcases List.mem_cons.1 h with rfl | hrest
    · rw [ways]
      refine ⟨by simp, fun way arguments hway => ?_⟩
      exact List.mem_append_left _ (List.mem_cons_of_mem _ (List.mem_map.2 ⟨_, hway, rfl⟩))
    · obtain ⟨hown, hon⟩ := ih hrest
      exact ⟨ways_subset_cons first rest hown, fun way arguments hway =>
        ways_subset_cons first rest (hon way arguments hway)⟩

theorem ways_subset_of_inline {inner : List Selection} {condition : Option String}
    {directives : List Directive} (h : .inline condition directives inner ∈ selections) :
    schema.ways (schema.within? owner? condition) inner ⊆ schema.ways owner? selections := by
  induction selections with
  | nil => cases h
  | cons first rest ih =>
    rcases List.mem_cons.1 h with rfl | hrest
    · rw [ways]
      exact List.subset_append_left _ _
    · exact List.Subset.trans (ih hrest) (ways_subset_cons first rest)

/-- Every way is listed. -/
theorem Leads.mem_ways (h : schema.Leads owner? selections way arguments) :
    (way, arguments) ∈ schema.ways owner? selections := by
  induction h with
  | field hmem => exact (mem_ways_of_field hmem).1
  | deeper hmem _ ih => exact (mem_ways_of_field hmem).2 _ _ ih
  | inline hmem _ ih => exact ways_subset_of_inline hmem ih

/-- A selected field is a step, and what leads on from it leads on from the selections. -/
theorem exists_step_of_selects {field : WrittenField} (h : Selects ∅ selections field)
    (owner? : Option SchemaType) : ∃ step : FieldStep, step.name = field.name ∧
      schema.Leads owner? selections [step] field.arguments ∧
      ∀ way arguments, schema.Leads (schema.below? step) field.selections way arguments →
        schema.Leads owner? selections (step :: way) arguments := by
  induction h generalizing owner? with
  | @field selections field directives hmem =>
    exact ⟨⟨owner?, field.name⟩, rfl, .field hmem, fun _ _ hway => .deeper hmem hway⟩
  | @inline selections inner field condition directives hmem _ ih =>
    obtain ⟨step, hname, hlast, hon⟩ := ih (schema.within? owner? condition)
    exact ⟨step, hname, .inline hmem hlast, fun way arguments hway => .inline hmem (hon way _ hway)⟩
  | spread _ hget => cases hget

/-- A field below selections is at the end of a way with the same names. -/
theorem exists_way_of_below {names : List String} {field : WrittenField}
    (h : Below ∅ selections names field) (owner? : Option SchemaType) :
    ∃ way, schema.Leads owner? selections way field.arguments ∧ way.map FieldStep.name = names := by
  induction h generalizing owner? with
  | selected hselects =>
    obtain ⟨step, hname, hlast, -⟩ := @exists_step_of_selects schema _ _ hselects owner?
    exact ⟨[step], hlast, congrArg (fun name => [name]) hname⟩
  | deeper hselects _ ih =>
    obtain ⟨step, hname, -, hon⟩ := @exists_step_of_selects schema _ _ hselects owner?
    obtain ⟨way, hway, hnames⟩ := ih (schema.below? step)
    exact ⟨step :: way, hon way _ hway, by rw [List.map_cons, hname, hnames]⟩

end Schema

/-! ### Names on ways -/

/-- What stands below a field that is read has names, like the selections that it is read from. -/
theorem SchemaObject.named_of_mem_reads {type : SchemaObject} {read : ReadField} :
    (selections : List Selection) → Selection.Named selections → read ∈ type.reads selections →
      Selection.Named read.selections
  | [], _, hread => by
    rw [reads] at hread
    cases hread
  | .field alias? name arguments directives inner :: rest, h, hread => by
    rw [Selection.Named] at h
    rw [reads, List.mem_append, Option.mem_toList, Option.map_eq_some_iff] at hread
    rcases hread with ⟨field, -, rfl⟩ | hread
    · exact h.2.1
    · exact named_of_mem_reads rest h.2.2 hread
  | .inline condition directives inner :: rest, h, hread => by
    rw [Selection.Named] at h
    rw [reads, List.mem_append] at hread
    rcases hread with hread | hread
    · split at hread
      · exact named_of_mem_reads inner h.1 hread
      · cases hread
    · exact named_of_mem_reads rest h.2 hread
  | .spread name directives :: rest, h, hread => by
    rw [Selection.Named] at h
    rw [reads] at hread
    exact named_of_mem_reads rest h hread

theorem Schema.Reads.named {schema : Schema} {type : SchemaObject} {selections : List Selection}
    {read : ReadField} (h : schema.Reads type selections read)
    (hnamed : Selection.Named selections) :
    Selection.Named read.selections := by
  induction h with
  | here hread => exact SchemaObject.named_of_mem_reads _ hnamed hread
  | deeper houter _ _ ih => exact ih (SchemaObject.named_of_mem_reads _ hnamed houter)

theorem Document.mem_of_executed? {document : Document} {name : Option String}
    {operation : Operation} (h : document.executed? name = some operation) :
    operation ∈ document.operations.toList := by
  obtain ⟨operations, fragments⟩ := document
  cases operations with
  | anonymous first =>
    cases name with
    | none =>
      cases h
      exact List.mem_singleton_self _
    | some name => cases h
  | named operations =>
    cases name with
    | some name => exact OrderedMap.mem_values_iff.2 ⟨name, h⟩
    | none =>
      simp only [executed?] at h
      split at h
      · next found hvalues =>
        cases h
        rw [Operations.toList, hvalues]
        exact List.mem_singleton_self _
      · cases h

/-- The selections of an executed request have names. -/
theorem Schema.Executes.named {schema : Schema} {text : String} {name : Option String}
    {bindings : Variables} {document : Document} {operation : Operation} {root : SchemaObject}
    (h : schema.Executes text name bindings document operation root) :
    Selection.Named (document.selected bindings operation) := by
  have hnamed := Document.named_of_parse h.parse_eq
  have hoperation := hnamed.operations operation (Document.mem_of_executed? h.executed_eq)
  exact (hoperation.inlineSpreads document.fragments _ hnamed.fragments).prune bindings _

/-! ### The paths of a query -/

namespace Executor

variable {ω : Type} {run : Executor ω} {read : ReadField} {query : CompiledQuery}

/-- A reading of the tree of a field is that of a field at the end of a way. -/
theorem exists_way_of_reading {path : String} {args : FieldArguments}
    (h : (path, args) ∈ (run.treeOf read).readings) (owner? : Option SchemaType) :
    ∃ way arguments, run.schema.Leads owner? read.selections way arguments ∧
      path = Path.joined (way.map FieldStep.name) ∧
        SelectionTree.convertAll run.convert arguments = .ok args := by
  let outer : WrittenField := ⟨some read.key, read.field.name, read.arguments, read.selections⟩
  have htree : outer.IsTree ∅ run.convert (run.treeOf read) :=
    ⟨[], ∅, SelectionTree.IsLeft.start ∅, rfl⟩
  obtain ⟨⟨trail, tree⟩, hmem, hread⟩ := List.mem_filterMap.1 h
  obtain ⟨names, field, htrail, hbelow, hfield⟩ :=
    exists_below_of_mem_descendants [] _ htree ⟨trail, tree⟩ hmem
  obtain ⟨way, hway, hnames⟩ := @Schema.exists_way_of_below run.schema _ _ _ hbelow owner?
  obtain ⟨found, hfound, heq⟩ := Option.map_eq_some_iff.1 hread
  cases heq
  refine ⟨way, field.arguments, hway, ?_, ?_⟩
  · rw [hnames]
    exact congrArg Path.joined htrail
  · rw [← hfield.arguments_eq]
    cases hargs : tree.arguments with
    | error e =>
      rw [hargs] at hfound
      cases hfound
    | ok args =>
      rw [hargs] at hfound
      exact congrArg Except.ok (Option.some.inj hfound)

variable (hquery : (run.treeOf read).compile = .ok query)

include hquery

/-- A path of the filter is that of a way to a field whose arguments stand for the filter there. -/
theorem exists_way_of_filter {path : String} {node : FilterNode}
    (hget : query.filter.get? path = some node) (owner? : Option SchemaType) :
    ∃ way arguments args, run.schema.Leads owner? read.selections way arguments ∧
      path = Path.joined (way.map FieldStep.name) ∧
      SelectionTree.convertAll run.convert arguments = .ok args ∧
        FilterNode.meaning? args = some node := by
  obtain ⟨-, rfl⟩ := SelectionTree.compile_eq_ok_iff.1 hquery
  obtain ⟨⟨path, args⟩, hreading, hmeaning⟩ :=
    List.mem_filterMap.1 (OrderedMap.mem_of_get?_ofList hget)
  obtain ⟨node, hnode, heq⟩ := Option.map_eq_some_iff.1 hmeaning
  cases heq
  obtain ⟨way, arguments, hway, hpath, hargs⟩ := exists_way_of_reading hreading owner?
  exact ⟨way, arguments, args, hway, hpath, hargs, hnode⟩

/-- A path of the sort is that of a way to a field whose arguments ask for the sort. -/
theorem exists_way_of_sort {path : String} {direction : Int}
    (hget : query.sort.get? path = some direction) (owner? : Option SchemaType) :
    ∃ way arguments args entry, run.schema.Leads owner? read.selections way arguments ∧
      path = Path.joined (way.map FieldStep.name) ∧
      SelectionTree.convertAll run.convert arguments = .ok args ∧
        SortEntry.ofVisited? ⟨path, args⟩ = some entry ∧ entry.direction = direction := by
  obtain ⟨-, rfl⟩ := SelectionTree.compile_eq_ok_iff.1 hquery
  obtain ⟨entry, hentry, heq⟩ := List.mem_map.1 (OrderedMap.mem_of_get?_ofList hget)
  cases heq
  obtain ⟨⟨path, args⟩, hreading, hvisited⟩ := List.mem_filterMap.1 (List.mem_mergeSort.1 hentry)
  have hpath : entry.path = path := by
    obtain ⟨value, -, rfl⟩ := Option.map_eq_some_iff.1 hvisited
    rfl
  obtain ⟨way, arguments, hway, hnames, hargs⟩ := exists_way_of_reading hreading owner?
  exact ⟨way, arguments, args, entry, hway, hpath.trans hnames, hargs, hpath ▸ hvisited, rfl⟩

end Executor

end ModelGraph
