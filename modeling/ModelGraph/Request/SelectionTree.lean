import ModelGraph.Request.Document
import ModelGraph.Text.Path

/-!
# Selection trees

A selection with its fragments expanded in place: a tree of fields with arguments as JSON. Reading
the arguments or the children of a field may fail, and the failure stays at its place in the tree,
so whoever walks the tree meets the first failure on the way.

## Main definitions

- `SelectionError` — why arguments or children cannot be read
- `SelectionTree` — a selected field
- `SelectionTree.expand` — the trees of a selection set
- `SelectionTree.walk` — a visitor's way through the fields below a field
- `SelectionTree.visit` — the fields below a field, with their dotted paths
- `Document.roots` — the trees of an operation's root fields
-/

namespace ModelGraph

/-- Why the arguments or the children of a selected field cannot be read. -/
inductive SelectionError where
  | unknownFragment (name : String)
  /-- A fragment is spread inside itself. -/
  | cyclicFragment (name : String)
  | unboundVariable (name : String)
  | other (text : String)
deriving DecidableEq, Repr

namespace SelectionError

/-- The wording of an error. -/
def message : SelectionError → String
  | .unknownFragment name => "unknown fragment `" ++ name ++ "`"
  | .cyclicFragment name => "fragment `" ++ name ++ "` spreads itself"
  | .unboundVariable name => "Variable " ++ name ++ " is not defined."
  | .other text => text

end SelectionError

/-- The arguments of a field, in the order in which they are written. -/
abbrev FieldArguments := List (String × Json)

/-- A selected field. -/
inductive SelectionTree where
  | node (name responseKey : String) (arguments : Except SelectionError FieldArguments)
      (children : Except SelectionError (List SelectionTree))

namespace SelectionTree

instance : Inhabited SelectionTree := ⟨node "" "" (.ok []) (.ok [])⟩

/-- The name of the field. -/
def name : SelectionTree → String
  | .node name _ _ _ => name

/-- The key of the field in the response: its alias, or else its name. -/
def responseKey : SelectionTree → String
  | .node _ key _ _ => key

/-- The arguments of the field. -/
def arguments : SelectionTree → Except SelectionError FieldArguments
  | .node _ _ arguments _ => arguments

/-- The fields selected below the field. -/
def children : SelectionTree → Except SelectionError (List SelectionTree)
  | .node _ _ _ children => children

/-! ### Fields below a field -/

/-- What a visitor does at a field with its dotted path; it threads a state along and may fail. -/
abbrev Visitor (σ : Type) := String → SelectionTree → σ → Except SelectionError σ

mutual

/-- Takes a visitor through the fields below a field whose path is `path`, depth first. The
children of a field are read before any of them is visited, and a field is visited before its own
children are read. The first failure on the way ends the walk. -/
def walk {σ : Type} (visitor : Visitor σ) (path : String) :
    SelectionTree → σ → Except SelectionError σ
  | .node _ _ _ (.error e), _ => .error e
  | .node _ _ _ (.ok children), state => walkAll visitor path children state

/-- Takes a visitor through a list of siblings and the fields below them. -/
def walkAll {σ : Type} (visitor : Visitor σ) (path : String) :
    List SelectionTree → σ → Except SelectionError σ
  | [], state => .ok state
  | .node name key arguments children :: rest, state => do
    let here := Path.child path name
    let state ← visitor here (.node name key arguments children) state
    let state ← walk visitor here (.node name key arguments children) state
    walkAll visitor path rest state

end

/-- A field below another one, with its dotted path. -/
structure Visited where
  path : String
  arguments : FieldArguments

mutual

/-- The fields below a field whose path is `path`, depth first. Of several failures the first on
the way counts: the children of a field are read first, then for each child its arguments before
its own children. -/
def visit (path : String) : SelectionTree → Except SelectionError (List Visited)
  | .node _ _ _ (.error e) => .error e
  | .node _ _ _ (.ok children) => visitAll path children

/-- The fields of a list of siblings and below them, for siblings under `path`. -/
def visitAll (path : String) : List SelectionTree → Except SelectionError (List Visited)
  | [] => .ok []
  | .node name key arguments children :: rest => do
    let here := Path.child path name
    let own ← arguments
    let inner ← visit here (.node name key arguments children)
    let others ← visitAll path rest
    pure (⟨here, own⟩ :: inner ++ others)

end

/-! ### Expansion -/

/-- Reads the arguments of a field in order. -/
def convertAll (convert : ArgValue → Except SelectionError Json) :
    List (String × ArgValue) → Except SelectionError FieldArguments
  | [] => .ok []
  | (name, value) :: rest => do
    let value ← convert value
    let others ← convertAll convert rest
    pure ((name, value) :: others)

/-- The trees of a selection set. `entered` are the fragments entered on the way here, and
`fragments` those that are left. -/
def expand (convert : ArgValue → Except SelectionError Json) (entered : List String)
    (fragments : OrderedMap String Fragment) (selections : List Selection) :
    Except SelectionError (List SelectionTree) :=
  match selections with
  | [] => .ok []
  | .field alias? name arguments _ inner :: rest => do
    let tree := node name (alias?.getD name) (convertAll convert arguments)
      (expand convert entered fragments inner)
    let others ← expand convert entered fragments rest
    pure (tree :: others)
  | .inline _ _ inner :: rest => do
    let trees ← expand convert entered fragments inner
    let others ← expand convert entered fragments rest
    pure (trees ++ others)
  | .spread name _ :: rest =>
    if entered.contains name then .error (.cyclicFragment name)
    else
      match _found : fragments.get? name with
      | none => .error (.unknownFragment name)
      | some fragment => do
        let trees ← expand convert (name :: entered) (fragments.erase name) fragment.selections
        let others ← expand convert entered fragments rest
        pure (trees ++ others)
-- A fragment that is entered leaves the fragments that may still be.
termination_by Fragment.countAll fragments + Selection.countAll selections
decreasing_by
  all_goals simp only [Selection.countAll, Selection.count]
  all_goals first
    | omega
    | have hleft := Fragment.countAll_erase_le _found
      omega

end SelectionTree

namespace Document

/-- The trees of the root fields of an operation. A variable without a binding is null. -/
def roots (document : Document) (operation : Operation) (bindings : Variables) :
    Except SelectionError (List SelectionTree) :=
  SelectionTree.expand (fun value => .ok (value.toJson bindings)) [] document.fragments
    operation.selections

end Document

end ModelGraph
