import ModelGraph.Request.SelectionTree
import ModelGraph.Graph.Arguments

/-!
# Sorts

Sort arguments of selected fields become an ordered list of paths with directions. Explicit
priorities come first and in ascending order; ties fall back to the path, by bytes, and then to the
direction, so the order in which fields are selected does not matter.

## Main definitions

- `sortDirection` — the direction that an argument asks for
- `SortEntry` — one field's part of a sort
- `SortEntry.le` — the order of entries
- `SortOrder.ofEntries` — the sort of entries in any order
- `SelectionTree.compileSort` — the sort of the fields below a root
-/

namespace ModelGraph

/-- Reads a direction: `desc` in any ASCII letter case, `-1` and numbers below zero are descending,
`-1`, and everything else is ascending, `1`. -/
def sortDirection : Json → Int
  | .string text =>
    if text.toList.map Char.toLower = "desc".toList ∨ text = "-1" then -1 else 1
  | .number value => if value.isBelowZero then -1 else 1
  | _ => 1

/-- One field's part of a sort. -/
structure SortEntry where
  path : String
  /-- Ascending `1`, or descending `-1`. -/
  direction : Int
  /-- Entries without a priority come after all that have one. -/
  priority : Option Int
deriving DecidableEq, Repr

/-- Paths in the order of their sort. -/
abbrev SortOrder := OrderedMap String Int

/-- The order of texts by the bytes of their encoding. -/
def compareBytes (a b : String) : Ordering :=
  compareOfLessAndEq a.toList b.toList

namespace SortEntry

/-- Priorities in order; none comes last. -/
def comparePriority : Option Int → Option Int → Ordering
  | some a, some b => compare a b
  | some _, none => .lt
  | none, some _ => .gt
  | none, none => .eq

/-- The order of entries: by priority, then path, then direction. -/
def compare (a b : SortEntry) : Ordering :=
  (comparePriority a.priority b.priority).then <|
    (compareBytes a.path b.path).then (Ord.compare a.direction b.direction)

/-- Whether an entry may stand before another. -/
def le (a b : SortEntry) : Bool := a.compare b != .gt

/-- The entry of a field, when it has a sort argument. The last argument of a name counts. -/
def ofVisited? (field : SelectionTree.Visited) : Option SortEntry :=
  let last (name : String) : Option Json :=
    (field.arguments.filter fun argument => argument.1 = name).getLast?.map Prod.snd
  (last Arguments.sort).map fun value =>
    ⟨field.path, sortDirection value, (last Arguments.sortOrder).bind Json.int64?⟩

end SortEntry

namespace SortOrder

/-- The entries of fields below a root. -/
def entries (fields : List SelectionTree.Visited) : List SortEntry :=
  fields.filterMap SortEntry.ofVisited?

/-- The sort of entries. Of several entries for one path the first gives its place and the last its
direction. -/
def ofEntries (entries : List SortEntry) : SortOrder :=
  .ofList <| (entries.mergeSort SortEntry.le).map fun entry => (entry.path, entry.direction)

/-- Adds the entry of a field. -/
def visitor : SelectionTree.Visitor (List SortEntry) := fun path field entries => do
  let arguments ← field.arguments
  match SortEntry.ofVisited? ⟨path, arguments⟩ with
  | some entry => pure (entries ++ [entry])
  | none => pure entries

/-- The sort as JSON. -/
def toJson (sort : SortOrder) : Json :=
  .object (sort.toList.map fun entry => (entry.1, .number (.int entry.2)))

end SortOrder

namespace SelectionTree

/-- The sort entries of the fields below a root, in the order in which the fields are selected. -/
def sortEntries (root : SelectionTree) : Except SelectionError (List SortEntry) :=
  root.walk SortOrder.visitor "" []

/-- The sort of the fields below a root. -/
def compileSort (root : SelectionTree) : Except SelectionError SortOrder := do
  let entries ← root.sortEntries
  pure (.ofEntries entries)

end SelectionTree

end ModelGraph
