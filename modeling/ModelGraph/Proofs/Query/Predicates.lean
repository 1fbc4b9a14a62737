import ModelGraph.Proofs.Query.Compile
import ModelGraph.Proofs.Request.Written

/-!
# The comparisons of a compiled request

A comparison that a request writes at a field below a root field is a clause of that field's filter,
and nothing else is. A query keeps one filter for each path and a request one query for each response
key, so of several fields at one path below a root the last one counts, and so does the last of
several roots with one key. The comparisons of the others are lost.

## Main definitions

- `WritesComparison` — the comparisons that a request writes
- `SelectionTree.Asks` — the comparisons that the trees of a request ask for
- `Unrepeated` — roots of which no one takes the place of another

## Main statements

- `compileRequest_comparisons` — which of the comparisons of a request are in its queries
-/

namespace ModelGraph

/-- The clauses of a filter. -/
def FilterNode.clauses : FilterNode → List Clause
  | .single clause => [clause]
  | .combined _ clauses => clauses

/-- The filter of a field has the clauses of its arguments. -/
theorem FilterNode.mem_clauses_meaning? {arguments : FieldArguments} {clause : Clause} :
    (∃ filter, meaning? arguments = some filter ∧ clause ∈ filter.clauses) ↔
      ∃ argument ∈ arguments, clauseOf? argument = some clause := by
  rw [← List.mem_filterMap, meaning?]
  rcases arguments.filterMap clauseOf? with _ | ⟨first, _ | ⟨second, rest⟩⟩ <;> simp [clauses]

theorem FilterNode.clauseOf?_eq_some_iff {argument : String × Json} {clause : Clause} :
    clauseOf? argument = some clause ↔
      ComparisonOperator.ofArgument? argument.1 = some clause.operator ∧
        argument.2 = clause.value := by
  obtain ⟨operator, value⟩ := clause
  simp [clauseOf?, and_comm]

/-- A request writes a comparison at a field below a root field: with the response key of the root,
the dotted path of the field, and the operator and the converted value as a clause. -/
def WritesComparison (text : String) (operation : Option String) (bindings : Variables)
    (key path : String) (clause : Clause) : Prop :=
  ∃ document chosen, Document.parse text = .ok document ∧
    document.operation? operation = .ok chosen ∧
    ∃ root, Selects document.fragments chosen.selections root ∧ root.responseKey = key ∧
    ∃ names field, Below document.fragments root.selections names field ∧
      Path.joined names = path ∧
    ∃ argument ∈ field.arguments,
      ComparisonOperator.ofArgument? argument.1 = some clause.operator ∧
        argument.2.toJson bindings = clause.value

namespace SelectionTree

/-- The dotted path and the filter of every field below a root that compares something, in
preorder. -/
def filters (root : SelectionTree) : List (String × FilterNode) :=
  root.readings.filterMap fun entry =>
    (FilterNode.meaning? entry.2).map fun filter => (entry.1, filter)

/-- What a root compiles to when nothing in it fails. -/
def query (root : SelectionTree) : CompiledQuery where
  filter := .ofList root.filters
  sort := .ofEntries (root.readings.filterMap fun entry => SortEntry.ofVisited? ⟨entry.1, entry.2⟩)

/-- A field below a root asks for a comparison. -/
def Asks (root : SelectionTree) (path : String) (clause : Clause) : Prop :=
  ∃ filter ∈ root.filters, filter.1 = path ∧ clause ∈ filter.2.clauses

instance (root : SelectionTree) (path : String) (clause : Clause) :
    Decidable (root.Asks path clause) :=
  inferInstanceAs (Decidable (∃ filter ∈ root.filters, _))

theorem compile_eq_ok_iff {root : SelectionTree} {result : CompiledQuery} :
    root.compile = .ok result ↔ root.failures = [] ∧ root.query = result := by
  rw [compile, compileFilter_eq, compileSort_eq]
  cases root.failures with
  | nil => exact ⟨fun h => ⟨rfl, Except.ok.inj h⟩, fun h => congrArg Except.ok h.2⟩
  | cons e rest => exact ⟨fun h => (by cases h), fun h => (by cases h.1)⟩

theorem asks_iff {root : SelectionTree} {path : String} {clause : Clause} :
    root.Asks path clause ↔ ∃ other ∈ root.descendants [], Path.joined other.1 = path ∧
      ∃ arguments, other.2.arguments = .ok arguments ∧
        ∃ argument ∈ arguments, FilterNode.clauseOf? argument = some clause := by
  have hread : ∀ (tree : SelectionTree) (arguments : FieldArguments),
      tree.arguments.toOption = some arguments ↔ tree.arguments = .ok arguments := by
    intro tree arguments
    cases tree.arguments <;> simp [Except.toOption]
  simp only [Asks, filters, readings, List.mem_filterMap, Option.map_eq_some_iff, hread,
    ← FilterNode.mem_clauses_meaning?]
  constructor
  · rintro ⟨_, ⟨_, ⟨other, hother, arguments, hok, rfl⟩, filter, hfilter, rfl⟩, rfl, hclause⟩
    exact ⟨other, hother, rfl, arguments, hok, filter, hfilter, hclause⟩
  · rintro ⟨other, hother, rfl, arguments, hok, filter, hfilter, hclause⟩
    exact ⟨_, ⟨_, ⟨other, hother, arguments, hok, rfl⟩, filter, hfilter, rfl⟩, rfl, hclause⟩

/-- Arguments that all convert do so one by one. -/
theorem convertAll_ok (bindings : Variables) (arguments : List (String × ArgValue)) :
    convertAll (fun value => .ok (value.toJson bindings)) arguments =
      .ok (arguments.map fun argument => (argument.1, argument.2.toJson bindings)) := by
  induction arguments with
  | nil => rfl
  | cons argument rest ih =>
    rw [convertAll, ih]
    rfl

end SelectionTree

/-! ### The roots of a request -/

open SelectionTree

section Request

variable {text : String} {operation : Option String} {bindings : Variables}
  {roots : List SelectionTree} {compiled : OrderedMap String CompiledQuery}

theorem requestRoots_eq_ok_iff : requestRoots text operation bindings = .ok roots ↔
    ∃ document, Document.parse text = .ok document ∧
      ∃ chosen, document.operation? operation = .ok chosen ∧
        document.roots chosen bindings = .ok roots := by
  simp only [requestRoots, bind_eq_ok_iff, mapError_eq_ok_iff]

theorem compileRoots_eq_ok_iff {done : OrderedMap String CompiledQuery} :
    compileRoots roots done = .ok compiled ↔ (∀ root ∈ roots, root.failures = []) ∧
      done.insertMany (roots.map fun root => (root.responseKey, root.query)) = compiled := by
  induction roots generalizing done with
  | nil => simp [compileRoots, OrderedMap.insertMany]
  | cons root rest ih =>
    simp only [compileRoots, bind_eq_ok_iff, SelectionTree.compile_eq_ok_iff, ih,
      List.forall_mem_cons, List.map_cons, OrderedMap.insertMany_cons]
    constructor
    · rintro ⟨_, ⟨hroot, rfl⟩, hrest, hcompiled⟩
      exact ⟨⟨hroot, hrest⟩, hcompiled⟩
    · rintro ⟨⟨hroot, hrest⟩, hcompiled⟩
      exact ⟨_, ⟨hroot, rfl⟩, hrest, hcompiled⟩

/-- A request compiles when nothing in its roots fails, with the queries of its roots. -/
theorem compileRequest_eq_ok_iff : compileRequest text operation bindings = .ok compiled ↔
    ∃ roots, requestRoots text operation bindings = .ok roots ∧
      (∀ root ∈ roots, root.failures = []) ∧
        .ofList (roots.map fun root => (root.responseKey, root.query)) = compiled := by
  simp only [compileRequest, bind_eq_ok_iff, mapError_eq_ok_iff, compileRoots_eq_ok_iff]
  rfl

/-- A request writes the comparisons that its roots ask for, when nothing in them fails. -/
theorem writesComparison_iff (hroots : requestRoots text operation bindings = .ok roots)
    (hread : ∀ root ∈ roots, root.failures = []) {key path : String} {clause : Clause} :
    WritesComparison text operation bindings key path clause ↔
      ∃ root ∈ roots, root.responseKey = key ∧ root.Asks path clause := by
  obtain ⟨document, hparse, chosen, hchosen, hexpand⟩ := requestRoots_eq_ok_iff.1 hroots
  have hleft := IsLeft.start document.fragments
  constructor
  -- The document is the one that was parsed; its fields lead to the trees of the roots and back.
  · rintro ⟨_, _, hparse', hchosen', root, hselects, rfl, names, field, hbelow, rfl, argument,
      hargument, hclause⟩
    obtain rfl := Except.ok.inj (hparse.symm.trans hparse')
    obtain rfl := Except.ok.inj (hchosen.symm.trans hchosen')
    obtain ⟨tree, htree, hroot⟩ := hselects.exists_tree hleft hexpand
    obtain ⟨inner, hinner, hfield⟩ := hroot.exists_descendant (hread tree htree) hbelow
    refine ⟨tree, htree, hroot.responseKey_eq, asks_iff.2 ⟨_, hinner, rfl, _,
      hfield.arguments_eq.trans (convertAll_ok bindings _), _, List.mem_map_of_mem hargument, ?_⟩⟩
    exact FilterNode.clauseOf?_eq_some_iff.2 hclause
  · rintro ⟨tree, htree, rfl, hasks⟩
    obtain ⟨root, hselects, hroot⟩ := exists_selects_of_mem _ _ _ hleft hexpand htree
    obtain ⟨other, hother, rfl, arguments, hok, converted, hmem, hclause⟩ := asks_iff.1 hasks
    obtain ⟨names, field, htrail, hbelow, hfield⟩ :=
      exists_below_of_mem_descendants [] tree hroot other hother
    rw [hfield.arguments_eq, convertAll_ok] at hok
    obtain rfl := Except.ok.inj hok
    obtain ⟨argument, hargument, rfl⟩ := List.mem_map.1 hmem
    exact ⟨document, chosen, hparse, hchosen, root, hselects, hroot.responseKey_eq.symm, names,
      field, hbelow, by rw [htrail, List.nil_append], argument, hargument,
      FilterNode.clauseOf?_eq_some_iff.1 hclause⟩

/-! ### What is kept -/

/-- Whether no root has the response key of another one, and no field below a root the path of
another one that compares something too. -/
def Unrepeated (roots : List SelectionTree) : Prop :=
  (roots.map SelectionTree.responseKey).Nodup ∧
    ∀ root ∈ roots, (root.filters.map Prod.fst).Nodup

instance (roots : List SelectionTree) : Decidable (Unrepeated roots) :=
  inferInstanceAs (Decidable (_ ∧ _))

/-- A clause is in the filter of a path, in the query of a response key. -/
def Keeps (compiled : OrderedMap String CompiledQuery) (key path : String) (clause : Clause) :
    Prop :=
  ∃ query, compiled.get? key = some query ∧
    ∃ filter, query.filter.get? path = some filter ∧ clause ∈ filter.clauses

instance (compiled : OrderedMap String CompiledQuery) (key path : String) (clause : Clause) :
    Decidable (Keeps compiled key path clause) :=
  decidable_of_iff (((compiled.get? key).any fun query => (query.filter.get? path).any fun filter =>
    decide (clause ∈ filter.clauses)) = true) (by simp [Keeps, Option.any_eq_true])

theorem keeps_ofList_iff {key path : String} {clause : Clause} :
    Keeps (.ofList (roots.map fun root => (root.responseKey, root.query))) key path clause ↔
      ∃ root, (roots.reverse.find? fun root => root.responseKey = key) = some root ∧
        ∃ filter, (root.filters.reverse.find? fun filter => filter.1 = path) = some filter ∧
          clause ∈ filter.2.clauses := by
  rw [Keeps, OrderedMap.get?_ofList_map]
  have hfilter : ∀ root : SelectionTree, root.query.filter.get? path =
      (root.filters.reverse.find? fun filter => filter.1 = path).map Prod.snd := by
    intro root
    rw [query, ← OrderedMap.get?_ofList_map, List.map_id']
  simp only [Option.map_eq_some_iff, exists_exists_and_eq_and, hfilter]

theorem Unrepeated.keeps_iff (h : Unrepeated roots) {key path : String} {clause : Clause} :
    Keeps (.ofList (roots.map fun root => (root.responseKey, root.query))) key path clause ↔
      ∃ root ∈ roots, root.responseKey = key ∧ root.Asks path clause := by
  rw [keeps_ofList_iff]
  constructor
  -- The last one of a key is one of them, and where keys differ it is the only one.
  · rintro ⟨root, hroot, filter, hfilter, hclause⟩
    exact ⟨root, List.mem_reverse.1 (List.mem_of_find?_eq_some hroot),
      by simpa using List.find?_some hroot, filter,
      List.mem_reverse.1 (List.mem_of_find?_eq_some hfilter),
      by simpa using List.find?_some hfilter, hclause⟩
  · rintro ⟨root, hroot, rfl, filter, hfilter, rfl, hclause⟩
    exact ⟨root, find?_reverse_key_of_nodup h.1 hroot, filter,
      find?_reverse_key_of_nodup (h.2 root hroot) hfilter, hclause⟩

/-- The comparisons that a request writes are those that its roots ask for. Those of the last field
at a path, below the last root of a response key, are in the queries of the request, and no other
ones; where nothing takes the place of anything else, that is all of them. -/
theorem compileRequest_comparisons (h : compileRequest text operation bindings = .ok compiled) :
    ∃ roots, requestRoots text operation bindings = .ok roots ∧
      (∀ key path clause, WritesComparison text operation bindings key path clause ↔
        ∃ root ∈ roots, root.responseKey = key ∧ root.Asks path clause) ∧
      (∀ key path clause, Keeps compiled key path clause ↔
        ∃ root, (roots.reverse.find? fun root => root.responseKey = key) = some root ∧
          ∃ filter, (root.filters.reverse.find? fun filter => filter.1 = path) = some filter ∧
            clause ∈ filter.2.clauses) ∧
      (Unrepeated roots → ∀ key path clause,
        WritesComparison text operation bindings key path clause ↔
          Keeps compiled key path clause) := by
  obtain ⟨roots, hroots, hread, rfl⟩ := compileRequest_eq_ok_iff.1 h
  refine ⟨roots, hroots, fun key path clause => writesComparison_iff hroots hread,
    fun key path clause => keeps_ofList_iff, fun hapart key path clause => ?_⟩
  rw [writesComparison_iff hroots hread, hapart.keeps_iff]

end Request

/-- A request that compares an age in a fragment below one root, and a title below another one. -/
def adultsRequest : String :=
  "query Q($min: Int) \x7b adults: users \x7b ...Basics \x7d posts \x7b title(in: [A, B]) \x7d \x7d"
    ++ " fragment Basics on User \x7b ... on Person \x7b years: age(gte: $min, lt: 65) \x7d \x7d"

/-- The bindings of the request. -/
def adultsBindings : Variables := .ofList [("min", .number (.int 18))]

theorem compileRequest_adultsRequest : ∃ compiled,
    compileRequest adultsRequest none adultsBindings = .ok compiled ∧
      WritesComparison adultsRequest none adultsBindings "adults" "age"
        ⟨.gte, .number (.int 18)⟩ ∧
      ∀ key path clause, WritesComparison adultsRequest none adultsBindings key path clause ↔
        Keeps compiled key path clause := by
  have hcheck : ((requestRoots adultsRequest none adultsBindings).toOption.any fun roots =>
      decide ((∀ root ∈ roots, root.failures = []) ∧ Unrepeated roots ∧
        ∃ root ∈ roots, root.responseKey = "adults" ∧
          root.Asks "age" ⟨.gte, .number (.int 18)⟩)) = true := by
    decide +kernel
  obtain ⟨roots, hroots, hcheck⟩ := exists_eq_ok_of_any hcheck
  obtain ⟨hread, hapart, hasks⟩ := of_decide_eq_true hcheck
  have hok := compileRequest_eq_ok_iff.2 ⟨roots, hroots, hread, rfl⟩
  obtain ⟨others, hothers, hwritten, -, hkept⟩ := compileRequest_comparisons hok
  obtain rfl := Except.ok.inj (hroots.symm.trans hothers)
  exact ⟨_, hok, (hwritten _ _ _).2 hasks, hkept hapart⟩

/-- A request that compares one path at two fields, which differ in their response keys. -/
def youngOldRequest : String :=
  "\x7b users \x7b young: age(gt: 5) old: age(lt: 65) \x7d \x7d"

/-- The comparison of the first of two fields at one path is lost. -/
theorem compileRequest_youngOldRequest : ∃ compiled,
    compileRequest youngOldRequest none ∅ = .ok compiled ∧
      WritesComparison youngOldRequest none ∅ "users" "age" ⟨.gt, .number (.int 5)⟩ ∧
        ¬ Keeps compiled "users" "age" ⟨.gt, .number (.int 5)⟩ := by
  have hcheck : ((requestRoots youngOldRequest none ∅).toOption.any fun roots =>
      decide ((∀ root ∈ roots, root.failures = []) ∧
        (∃ root ∈ roots, root.responseKey = "users" ∧
          root.Asks "age" ⟨.gt, .number (.int 5)⟩) ∧
        ¬ Keeps (.ofList (roots.map fun root => (root.responseKey, root.query))) "users" "age"
          ⟨.gt, .number (.int 5)⟩)) = true := by
    decide +kernel
  obtain ⟨roots, hroots, hcheck⟩ := exists_eq_ok_of_any hcheck
  obtain ⟨hread, hasks, hlost⟩ := of_decide_eq_true hcheck
  exact ⟨_, compileRequest_eq_ok_iff.2 ⟨roots, hroots, hread, rfl⟩,
    (writesComparison_iff hroots hread).2 hasks, hlost⟩

end ModelGraph
