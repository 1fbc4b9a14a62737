import ModelGraph.Query.Filter
import ModelGraph.Query.Sort
import ModelGraph.Request.Grammar

/-!
# Compiling requests

A root field compiles to the filter and the sort that the fields below it ask for. The root's own
arguments are not read.

## Main definitions

- `CompiledQuery` — a filter and a sort
- `SelectionTree.compile` — the query of a root field
- `RequestError` — why a request cannot be compiled
- `compileRequest` — the queries of all root fields, by response key
-/

namespace ModelGraph

/-- The filter and the sort of one root field. -/
structure CompiledQuery where
  filter : Filter := ∅
  sort : SortOrder := ∅
deriving DecidableEq, Inhabited

/-- A query as JSON. -/
def CompiledQuery.toJson (query : CompiledQuery) : Json :=
  .object [("filter", query.filter.toJson), ("sort", query.sort.toJson)]

/-- The query of a root field. Either half failing fails the whole. -/
def SelectionTree.compile (root : SelectionTree) : Except SelectionError CompiledQuery := do
  let filter ← root.compileFilter
  let sort ← root.compileSort
  pure { filter, sort }

/-- The query where nothing is selected. -/
def compileNothing : CompiledQuery := {}

/-- Why a request cannot be compiled. -/
inductive RequestError where
  | parse (error : ParseError)
  | operation (error : Document.OperationError)
  | selection (error : SelectionError)
deriving DecidableEq, Repr

namespace RequestError

/-- The wording of an error. -/
def message : RequestError → String
  | .parse error => "Parse error: " ++ error.message
  | .operation (.unknown name) => "Unknown operation: " ++ name
  | .operation .nameRequired =>
    "Unknown operation: operation name required for a multi-operation document"
  | .selection error => "Unsupported selection: " ++ error.message

end RequestError

/-- The root fields of a request. -/
def requestRoots (text : String) (operation : Option String) (bindings : Variables) :
    Except RequestError (List SelectionTree) := do
  let document ← (Document.parse text).mapError .parse
  let operation ← (document.operation? operation).mapError .operation
  (document.roots operation bindings).mapError .selection

/-- Compiles roots in order, by response key. A key that is met again keeps its place. -/
def compileRoots : List SelectionTree → OrderedMap String CompiledQuery →
    Except SelectionError (OrderedMap String CompiledQuery)
  | [], done => .ok done
  | root :: rest, done => do
    let query ← root.compile
    compileRoots rest (done.insert root.responseKey query)

/-- The queries of a request's root fields, by response key. -/
def compileRequest (text : String) (operation : Option String) (bindings : Variables) :
    Except RequestError (OrderedMap String CompiledQuery) := do
  let roots ← requestRoots text operation bindings
  (compileRoots roots ∅).mapError .selection

end ModelGraph
