import ModelGraph.Proofs.OrderedMap
import ModelGraph.Proofs.Request.Walk
import ModelGraph.Query.Compile

/-!
# What a root field compiles to

The filter and the sort of a root field are made by two walks through the same tree. Both read the
same things in the same order, so they fail together, with the first failure in preorder. When
nothing fails, every field that compares something puts one filter at its dotted path.

## Main definitions

- `FilterNode.meaning?` — the filter that arguments stand for, said without reading them in turn
- `SelectionTree.comparisons` — the paths and filters of the fields that compare something

## Main statements

- `FilterNode.ofArguments?_eq_meaning?` — reading arguments in turn gives their meaning
- `SelectionTree.compile_eq_reference` — what a root field compiles to
-/

namespace ModelGraph

/-! ### The filter of one field -/

namespace FilterNode

/-- The clause that an argument asks for. -/
def clauseOf? (argument : String × Json) : Option Clause :=
  (ComparisonOperator.ofArgument? argument.1).map fun operator => ⟨operator, argument.2⟩

/-- The connective that an argument picks. -/
def connectiveOf? (argument : String × Json) : Option LogicalOperator :=
  if argument.1 = Arguments.op then argument.2.string?.bind LogicalOperator.ofName? else none

/-- The connective that arguments pick: the last one that can be read, or else `and`. -/
def connectiveOf (arguments : FieldArguments) : LogicalOperator :=
  (arguments.filterMap connectiveOf?).getLast?.getD .and

/-- The filter that the arguments of a field stand for: their comparisons as clauses in written
order, one alone or several under the connective. -/
def meaning? (arguments : FieldArguments) : Option FilterNode :=
  match arguments.filterMap clauseOf? with
  | [] => none
  | [clause] => some (.single clause)
  | clauses => some (.combined (connectiveOf arguments) clauses)

theorem clauseOf?_of_op {argument : String × Json} (h : argument.1 = Arguments.op) :
    clauseOf? argument = none := by
  rw [clauseOf?, h]
  rfl

/-- One more argument adds its clause and replaces the connective, if it has one. -/
theorem readArgument_eq (read : LogicalOperator × List Clause) (argument : String × Json) :
    readArgument read argument =
      ((connectiveOf? argument).getD read.1, read.2 ++ (clauseOf? argument).toList) := by
  by_cases h : argument.1 = Arguments.op
  · rw [clauseOf?_of_op h, readArgument, connectiveOf?, if_pos h, if_pos h]
    cases argument.2.string?.bind LogicalOperator.ofName? <;> simp
  · rw [readArgument, connectiveOf?, if_neg h, if_neg h, clauseOf?]
    cases ComparisonOperator.ofArgument? argument.1 <;> simp

theorem foldl_readArgument (arguments : FieldArguments) :
    arguments.foldl readArgument (.and, []) =
      (connectiveOf arguments, arguments.filterMap clauseOf?) := by
  induction arguments using List.reverseRecOn with
  | nil => rfl
  | append_singleton front argument ih =>
    rw [List.foldl_append, ih, List.foldl_cons, List.foldl_nil, readArgument_eq, connectiveOf,
      connectiveOf, List.filterMap_append, List.filterMap_append]
    cases hop : connectiveOf? argument <;> cases hclause : clauseOf? argument <;>
      simp [hop, hclause]

/-- Reading the arguments of a field in turn gives the filter that they stand for. -/
theorem ofArguments?_eq_meaning? (arguments : FieldArguments) :
    ofArguments? arguments = meaning? arguments := by
  rw [ofArguments?, foldl_readArgument, meaning?]
  rcases arguments.filterMap clauseOf? with _ | ⟨first, _ | ⟨second, rest⟩⟩ <;> rfl

end FilterNode

/-! ### The two halves -/

/-- Adds the filter of a field to those before. -/
def Filter.add (path : String) (arguments : FieldArguments) (filter : Filter) : Filter :=
  match FilterNode.ofArguments? arguments with
  | some node => filter.insert path node
  | none => filter

/-- Adds the sort entry of a field to those before. -/
def SortOrder.add (path : String) (arguments : FieldArguments) (entries : List SortEntry) :
    List SortEntry :=
  match SortEntry.ofVisited? ⟨path, arguments⟩ with
  | some entry => entries ++ [entry]
  | none => entries

theorem Filter.visitor_eq_reading : Filter.visitor = SelectionTree.reading Filter.add := by
  funext path field filter
  rw [Filter.visitor, SelectionTree.reading]
  refine bind_congr fun arguments => ?_
  rw [Filter.add]
  cases FilterNode.ofArguments? arguments <;> rfl

theorem SortOrder.visitor_eq_reading : SortOrder.visitor = SelectionTree.reading SortOrder.add := by
  funext path field entries
  rw [SortOrder.visitor, SelectionTree.reading]
  refine bind_congr fun arguments => ?_
  rw [SortOrder.add]
  cases SortEntry.ofVisited? ⟨path, arguments⟩ <;> rfl

namespace SelectionTree

/-- The filter half fails with the first failure of the tree, or else holds the filters of all
readings. -/
theorem compileFilter_eq (root : SelectionTree) :
    root.compileFilter =
      match root.failures.head? with
      | some e => .error e
      | none => .ok <| .ofList <| root.readings.filterMap fun entry =>
          (FilterNode.meaning? entry.2).map fun node => (entry.1, node) := by
  have hfold : ∀ (entries : List (String × FieldArguments)) (filter : Filter),
      entries.foldl (fun filter entry => Filter.add entry.1 entry.2 filter) filter =
        filter.insertMany (entries.filterMap fun entry =>
          (FilterNode.meaning? entry.2).map fun node => (entry.1, node)) := by
    intro entries
    induction entries with
    | nil => exact fun _ => rfl
    | cons entry rest ih =>
      intro filter
      rw [List.foldl_cons, ih, Filter.add, FilterNode.ofArguments?_eq_meaning?, List.filterMap_cons]
      cases FilterNode.meaning? entry.2 <;> rfl
  rw [compileFilter, Filter.visitor_eq_reading, walk_reading, hfold]
  rfl

/-- The sort half fails with the first failure of the tree, or else orders the entries of all
readings. -/
theorem compileSort_eq (root : SelectionTree) :
    root.compileSort =
      match root.failures.head? with
      | some e => .error e
      | none => .ok <| .ofEntries <| root.readings.filterMap fun entry =>
          SortEntry.ofVisited? ⟨entry.1, entry.2⟩ := by
  have hfold : ∀ (readings : List (String × FieldArguments)) (entries : List SortEntry),
      readings.foldl (fun entries entry => SortOrder.add entry.1 entry.2 entries) entries =
        entries ++ readings.filterMap fun entry => SortEntry.ofVisited? ⟨entry.1, entry.2⟩ := by
    intro readings
    induction readings with
    | nil => simp
    | cons entry rest ih =>
      intro entries
      rw [List.foldl_cons, ih, SortOrder.add, List.filterMap_cons]
      cases SortEntry.ofVisited? ⟨entry.1, entry.2⟩ <;> simp
  rw [compileSort, sortEntries, SortOrder.visitor_eq_reading, walk_reading]
  cases root.failures.head? with
  | some e => rfl
  | none =>
    rw [hfold]
    rfl

/-! ### The whole query -/

/-- The dotted path and the filter of every field below a root that compares something, in
preorder. -/
def comparisons (root : SelectionTree) : List (String × FilterNode) :=
  (root.descendants []).filterMap fun field =>
    field.2.arguments.toOption.bind fun arguments =>
      (FilterNode.meaning? arguments).map fun node => (".".intercalate field.1, node)

theorem comparisons_eq_readings {root : SelectionTree}
    (named : ∀ field ∈ root.descendants [], field.2.name ≠ "") :
    root.comparisons = root.readings.filterMap fun entry =>
      (FilterNode.meaning? entry.2).map fun node => (entry.1, node) := by
  rw [comparisons, readings, List.filterMap_filterMap]
  refine List.filterMap_congr fun field hfield => ?_
  rw [Path.joined_eq_intercalate (names_ne_empty [] (by simp) root named field hfield)]
  cases field.2.arguments.toOption <;> rfl

/-- A root field whose descendants have nonempty names compiles unless something in its tree cannot
be read; then the first failure in preorder is the result. The filter has one entry for each dotted
path at which a descendant compares something. It stands where the first such descendant puts it,
and its value is the meaning of the last one. Where the filter half succeeds the sort half does. -/
theorem compile_eq_reference (root : SelectionTree)
    (named : ∀ field ∈ root.descendants [], field.2.name ≠ "") :
    (∀ e, root.failures.head? = some e → root.compile = .error e) ∧
    (root.failures = [] → ∃ query, root.compile = .ok query ∧
      query.filter.keys = (root.comparisons.map Prod.fst).eraseDups ∧
      ∀ path, query.filter.get? path =
        ((root.comparisons.filter fun entry => entry.1 = path).getLast?).map Prod.snd) ∧
    (∀ filter, root.compileFilter = .ok filter → ∃ sort, root.compileSort = .ok sort) := by
  have hfilter := compileFilter_eq root
  have hsort := compileSort_eq root
  rw [← comparisons_eq_readings named] at hfilter
  refine ⟨?_, ?_, ?_⟩
  · intro e he
    rw [he] at hfilter
    rw [compile, hfilter]
    rfl
  · intro hnone
    rw [hnone] at hfilter hsort
    refine ⟨_, by rw [compile, hfilter, hsort]; rfl, OrderedMap.keys_ofList, fun path => ?_⟩
    exact OrderedMap.get?_ofList
  · intro filter hok
    cases hhead : root.failures.head? with
    | some e =>
      rw [hhead, hok] at hfilter
      cases hfilter
    | none =>
      rw [hhead] at hsort
      exact ⟨_, hsort⟩

/-- A root whose second child asks for a path that its first child asked for already. -/
def repeatedPath : SelectionTree :=
  .node "users" "users" (.error (.other "never read")) <| .ok
    [.node "age" "age" (.ok [("gt", .number (.int 5))]) (.ok []),
     .node "address" "address" (.ok []) <| .ok
       [.node "city" "city" (.ok [("ne", .null)]) (.ok [])],
     .node "age" "other" (.ok [("op", .string "OR"), ("lt", .bool true), ("in", .null)]) (.ok [])]

theorem compile_repeatedPath :
    (∀ field ∈ repeatedPath.descendants [], field.2.name ≠ "") ∧ repeatedPath.failures = [] ∧
      ∃ query, repeatedPath.compile = .ok query ∧ query.filter.keys = ["age", "address.city"] ∧
        query.filter.get? "age" = some (.combined .or [⟨.lt, .bool true⟩, ⟨.isIn, .null⟩]) := by
  have hnamed : ∀ field ∈ repeatedPath.descendants [], field.2.name ≠ "" := by decide
  have hnone : repeatedPath.failures = [] := by rfl
  obtain ⟨query, hok, hkeys, hget⟩ := (compile_eq_reference repeatedPath hnamed).2.1 hnone
  refine ⟨hnamed, hnone, query, hok, hkeys.trans rfl, (hget "age").trans rfl⟩

end SelectionTree

end ModelGraph
