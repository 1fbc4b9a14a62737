import ModelGraph.Request.Value

/-!
# Request documents

The operations and fragments of a GraphQL request.

## Main definitions

- `Selection` — a field, an inline fragment or a spread
- `Operation`, `Fragment`, `Document`
- `Document.operation?` — the operation that a request asks for
-/

namespace ModelGraph

/-- A directive. -/
structure Directive where
  name : String
  arguments : List (String × ArgValue)
deriving Repr

/-- One part of a selection set. -/
inductive Selection where
  | field (alias? : Option String) (name : String) (arguments : List (String × ArgValue))
      (directives : List Directive) (selections : List Selection)
  | inline (condition : Option String) (directives : List Directive) (selections : List Selection)
  | spread (fragment : String) (directives : List Directive)
deriving Repr

namespace Selection

mutual

/-- How many selections there are at a selection and below it. -/
def count : Selection → Nat
  | .field _ _ _ _ inner => countAll inner + 1
  | .inline _ _ inner => countAll inner + 1
  | .spread _ _ => 1

/-- How many selections there are in a selection set, at any level. -/
def countAll : List Selection → Nat
  | [] => 0
  | selection :: rest => count selection + countAll rest

end

end Selection

/-- The type of a variable. -/
inductive VariableType where
  | named (name : String) (nonNull : Bool)
  | list (element : VariableType) (nonNull : Bool)
deriving DecidableEq, Repr

/-- The definition of a variable. -/
structure VariableDef where
  name : String
  type : VariableType
  directives : List Directive
  default : Option ConstValue
deriving Repr

/-- The kind of an operation. -/
inductive OperationKind where
  | query
  | mutation
  | subscription
deriving DecidableEq, Repr

/-- An operation. -/
structure Operation where
  kind : OperationKind
  variableDefs : List VariableDef
  directives : List Directive
  selections : List Selection
deriving Repr

/-- A fragment. -/
structure Fragment where
  condition : String
  directives : List Directive
  selections : List Selection
deriving Repr

/-- How many selections fragments hold together. -/
def Fragment.countAll (fragments : OrderedMap String Fragment) : Nat :=
  fragments.total fun fragment => Selection.countAll fragment.selections

/-- A fragment that is entered takes its selections off those that are left. -/
theorem Fragment.countAll_erase_le {fragments : OrderedMap String Fragment} {name : String}
    {fragment : Fragment} (h : fragments.get? name = some fragment) :
    countAll (fragments.erase name) + Selection.countAll fragment.selections
      ≤ countAll fragments :=
  OrderedMap.total_erase_le _ h

/-- The operations of a document: one without a name, or named ones. -/
inductive Operations where
  | anonymous (operation : Operation)
  | named (operations : OrderedMap String Operation)

/-- All operations, in order. -/
def Operations.toList : Operations → List Operation
  | .anonymous operation => [operation]
  | .named operations => operations.values

/-- A request document. -/
structure Document where
  operations : Operations
  fragments : OrderedMap String Fragment

namespace Document

/-- Why no operation can be picked. -/
inductive OperationError where
  | unknown (name : String)
  | nameRequired
deriving DecidableEq, Repr

/-- The operation that a request asks for. An operation without a name is taken whatever the
request asks for; a single named one is taken when it asks for none. -/
def operation? (document : Document) (name : Option String) : Except OperationError Operation :=
  match document.operations, name with
  | .anonymous operation, _ => .ok operation
  | .named operations, some name =>
    match operations.get? name with
    | some operation => .ok operation
    | none => .error (.unknown name)
  | .named operations, none =>
    match operations.values with
    | [operation] => .ok operation
    | _ => .error .nameRequired

/-- The operation that a request executes. Here a requested name is the name of an operation, so
it never finds an operation without one. -/
def executed? (document : Document) (name : Option String) : Option Operation :=
  match document.operations, name with
  | .anonymous operation, none => some operation
  | .anonymous _, some _ => none
  | .named operations, some name => operations.get? name
  | .named operations, none =>
    match operations.values with
    | [operation] => some operation
    | _ => none

end Document

end ModelGraph
