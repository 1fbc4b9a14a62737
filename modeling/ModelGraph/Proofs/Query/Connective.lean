import ModelGraph.Proofs.Query.Compile

/-!
# What the filter of a field says

A document query reads `$and`, `$or` and `$nor` over a list of clauses as all, some and none of
them, `$not` over a list as not all of them, and any other node as a bare clause. Read in this way,
the filter of a field with several comparisons says what the connective of the field says of them.
A comparison that stands alone is not wrapped: its filter says what the comparison says, whatever the
connective is, and so the opposite of what `not` and `nor` would say.

## Main definitions

- `LogicalOperator.combine` — what a connective says of truth values
- `Json.isTrue` — whether a node of a document query is true, given the truth of its clauses

## Main statements

- `FilterNode.isTrue_of_comparisons` — when the filter of a field is true
-/

namespace ModelGraph

/-- What a connective says of the truth values of several clauses. -/
def LogicalOperator.combine (values : List Bool) : LogicalOperator → Bool
  | and => values.all id
  | or => values.any id
  | not => !values.all id
  | nor => !values.any id

/-- Whether a node of a document query is true. Each clause has its own truth value, which may
depend on its place. -/
def Json.isTrue (truth : Nat → Json → Bool) : Json → Bool
  | .object [("$and", .array clauses)] => (clauses.mapIdx truth).all id
  | .object [("$or", .array clauses)] => (clauses.mapIdx truth).any id
  | .object [("$nor", .array clauses)] => !(clauses.mapIdx truth).any id
  | .object [("$not", .array clauses)] => !(clauses.mapIdx truth).all id
  | clause => truth 0 clause

namespace FilterNode

variable (truth : Nat → Json → Bool)

/-- No comparison has the key of a connective: a bare clause is read as one. -/
theorem isTrue_single (clause : Clause) :
    (single clause).toJson.isTrue truth = truth 0 clause.toJson := by
  obtain ⟨operator, value⟩ := clause
  cases operator <;> cases value <;> rfl

/-- Several clauses under a connective are read as the connective says. -/
theorem isTrue_combined (operator : LogicalOperator) (clauses : List Clause) :
    (combined operator clauses).toJson.isTrue truth =
      operator.combine (clauses.mapIdx fun place clause => truth place clause.toJson) := by
  have hplaces : (clauses.map Clause.toJson).mapIdx truth =
      clauses.mapIdx fun place clause => truth place clause.toJson := by
    rw [List.mapIdx_eq_zipIdx_map, List.zipIdx_map, List.map_map, List.mapIdx_eq_zipIdx_map]
    rfl
  rw [← hplaces]
  cases operator <;> rfl

/-- The arguments of a field with comparisons ask for one filter, however its connective is given:
the last `op` that can be read counts, and `and` where there is none. With several comparisons the
filter says what the connective says of them. With a single one it is true when that one is, which
is what `and` and `or` say of it. -/
theorem isTrue_of_comparisons (arguments : FieldArguments)
    (h : arguments.filterMap clauseOf? ≠ []) :
    ∃ node, ofArguments? arguments = some node ∧ ∀ truth : Nat → Json → Bool,
      let values := (arguments.filterMap clauseOf?).mapIdx fun place clause =>
        truth place clause.toJson
      (2 ≤ values.length ∨ connectiveOf arguments = .and ∨ connectiveOf arguments = .or →
        node.toJson.isTrue truth = (connectiveOf arguments).combine values) ∧
      ∀ value, values = [value] → node.toJson.isTrue truth = value := by
  rw [ofArguments?_eq_meaning?, meaning?]
  rcases hclauses : arguments.filterMap clauseOf? with _ | ⟨first, _ | ⟨second, rest⟩⟩
  · exact absurd hclauses h
  · refine ⟨.single first, rfl, fun truth => ⟨fun hplain => ?_, fun value hvalue => ?_⟩⟩
    · rw [isTrue_single]
      rcases hplain with hseveral | hand | hor
      · exact absurd hseveral (by simp)
      · rw [hand]
        simp [LogicalOperator.combine]
      · rw [hor]
        simp [LogicalOperator.combine]
    · rw [isTrue_single]
      simpa using hvalue
  · refine ⟨.combined (connectiveOf arguments) (first :: second :: rest), rfl,
      fun truth => ⟨fun _ => isTrue_combined truth _ _, fun value hvalue => ?_⟩⟩
    simp at hvalue

/-- Arguments that give the connective three times, between the comparisons. -/
def adultsArguments : FieldArguments :=
  [("op", .string "or"), ("gte", .number (.int 18)), ("sort", .string "DESC"), ("op", .string "Nor"),
    ("lt", .number (.int 65)), ("op", .string "xor")]

theorem isTrue_adultsArguments :
    adultsArguments.filterMap clauseOf? ≠ [] ∧
      ∃ node, ofArguments? adultsArguments = some node ∧ ∀ truth : Nat → Json → Bool,
        node.toJson.isTrue truth =
          LogicalOperator.nor.combine
            [truth 0 (Clause.toJson ⟨.gte, .number (.int 18)⟩),
              truth 1 (Clause.toJson ⟨.lt, .number (.int 65)⟩)] := by
  have hclauses : adultsArguments.filterMap clauseOf? ≠ [] := by decide
  obtain ⟨node, hnode, htruth⟩ := isTrue_of_comparisons adultsArguments hclauses
  have hconnective : connectiveOf adultsArguments = .nor := by decide
  refine ⟨hclauses, node, hnode, fun truth => ?_⟩
  rw [(htruth truth).1 (.inl (Nat.le_refl 2)), hconnective]
  rfl

/-- Arguments that negate a single comparison. -/
def negatedArguments : FieldArguments :=
  [("gt", .number (.int 5)), ("op", .string "NOT")]

/-- The connective of a single comparison is lost: the filter is true when the comparison is, though
`not` says the opposite. -/
theorem isTrue_negatedArguments :
    connectiveOf negatedArguments = .not ∧
      ∃ clause node, negatedArguments.filterMap clauseOf? = [clause] ∧
        ofArguments? negatedArguments = some node ∧
        node.toJson.isTrue (fun _ _ => true) = true ∧
        LogicalOperator.not.combine [true] = false :=
  ⟨by decide, ⟨.gt, .number (.int 5)⟩, .single ⟨.gt, .number (.int 5)⟩, by decide, by decide,
    by decide, by decide⟩

end FilterNode

end ModelGraph
