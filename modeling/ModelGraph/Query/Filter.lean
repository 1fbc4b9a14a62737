import ModelGraph.Request.SelectionTree
import ModelGraph.Graph.Arguments

/-!
# Filters

Comparison arguments of selected fields become the clauses of a filter over dotted paths. A field
with one clause keeps it bare; several stand under the field's logical operator.

## Main definitions

- `ComparisonOperator`, `LogicalOperator` — the operators
- `FilterNode`, `Filter` — the filter of a path and of all paths
- `FilterNode.ofArguments?` — the filter that a field's arguments ask for
- `SelectionTree.compileFilter` — the filter of the fields below a root
-/

namespace ModelGraph

/-- A comparison of a stored value with an argument. -/
inductive ComparisonOperator where
  | eq
  | gt
  | gte
  | lt
  | lte
  | ne
  | isIn
  | notIn
  | all
  | size
  | elemMatch
deriving DecidableEq, Repr

namespace ComparisonOperator

/-- The argument that asks for an operator. -/
def argument : ComparisonOperator → String
  | eq => "eq"
  | gt => "gt"
  | gte => "gte"
  | lt => "lt"
  | lte => "lte"
  | ne => "ne"
  | isIn => "in"
  | notIn => "nin"
  | all => "all"
  | size => "size"
  | elemMatch => "elemMatch"

/-- All operators. -/
def operators : List ComparisonOperator :=
  [eq, gt, gte, lt, lte, ne, isIn, notIn, all, size, elemMatch]

/-- The operator that an argument asks for. -/
def ofArgument? (name : String) : Option ComparisonOperator :=
  operators.find? fun operator => operator.argument = name

/-- The key of an operator in a filter. -/
def key (operator : ComparisonOperator) : String := "$" ++ operator.argument

end ComparisonOperator

/-- A connective over the clauses of one field. -/
inductive LogicalOperator where
  | and
  | or
  | not
  | nor
deriving DecidableEq, Repr

namespace LogicalOperator

/-- The name of a connective. -/
def name : LogicalOperator → String
  | and => "and"
  | or => "or"
  | not => "not"
  | nor => "nor"

/-- The key of a connective in a filter. -/
def key (operator : LogicalOperator) : String := "$" ++ operator.name

/-- Reads a connective in any letter case. -/
def ofName? (name : String) : Option LogicalOperator :=
  [and, or, not, nor].find? fun operator => operator.name = Text.lower name

/-- The wording for a name that no connective has. -/
def invalidMessage (name : String) : String := "Invalid logical operator: " ++ name

end LogicalOperator

/-- One comparison. -/
structure Clause where
  operator : ComparisonOperator
  value : Json
deriving DecidableEq

/-- The filter of one path. -/
inductive FilterNode where
  | single (clause : Clause)
  | combined (operator : LogicalOperator) (clauses : List Clause)
deriving DecidableEq

/-- Filters by dotted path. -/
abbrev Filter := OrderedMap String FilterNode

/-- A clause as JSON. -/
def Clause.toJson (clause : Clause) : Json :=
  .object [(clause.operator.key, clause.value)]

namespace FilterNode

/-- The filter of a path as JSON. -/
def toJson : FilterNode → Json
  | .single clause => clause.toJson
  | .combined operator clauses => .object [(operator.key, .array (clauses.map Clause.toJson))]

/-- Changes the value of every clause. -/
def mapValues (f : Json → Json) : FilterNode → FilterNode
  | .single clause => .single { clause with value := f clause.value }
  | .combined operator clauses =>
    .combined operator (clauses.map fun clause => { clause with value := f clause.value })

/-- Reads one more argument of a field: a comparison is added to the clauses, and a connective that
can be read replaces the one before. -/
def readArgument (read : LogicalOperator × List Clause) (argument : String × Json) :
    LogicalOperator × List Clause :=
  if argument.1 = Arguments.op then
    match argument.2.string?.bind LogicalOperator.ofName? with
    | some operator => (operator, read.2)
    | none => read
  else
    match ComparisonOperator.ofArgument? argument.1 with
    | some operator => (read.1, read.2 ++ [⟨operator, argument.2⟩])
    | none => read

/-- The filter that the arguments of a field ask for, if they compare anything. -/
def ofArguments? (arguments : FieldArguments) : Option FilterNode :=
  match arguments.foldl readArgument (.and, []) with
  | (_, []) => none
  | (_, [clause]) => some (.single clause)
  | (operator, clauses) => some (.combined operator clauses)

end FilterNode

namespace Filter

/-- Adds the filter of a field. When a path is met again, its later filter takes the place of the
earlier one. -/
def visitor : SelectionTree.Visitor Filter := fun path field filter => do
  let arguments ← field.arguments
  match FilterNode.ofArguments? arguments with
  | some node => pure (filter.insert path node)
  | none => pure filter

/-- The filter as JSON. -/
def toJson (filter : Filter) : Json :=
  .object (filter.toList.map fun entry => (entry.1, entry.2.toJson))

end Filter

/-- The filter of the fields below a root. The root's own arguments are not read. -/
def SelectionTree.compileFilter (root : SelectionTree) : Except SelectionError Filter :=
  root.walk Filter.visitor "" ∅

end ModelGraph
