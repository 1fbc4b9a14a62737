import ModelGraph.OrderedMap
import ModelGraph.Yaml.Node

/-!
# Aliases

An alias stands for the node whose anchor it names. Anchors are numbered in the order of their nodes:
each gets the number of names seen before it, and an alias the number that its name has at that
place. A name given again may thereby share a number with a later one; of the nodes with one number
the last counts.

## Main definitions

- `Yaml.Numbered` — a node with numbers in place of names
- `Yaml.number?` — numbers the anchors of a node; `none` for an alias of an unknown name
- `Yaml.Numbered.toTree` — the tree of a node
-/

namespace ModelGraph.Yaml

/-- A node with the numbers of its anchors and aliases. -/
inductive Numbered where
  | scalar (value : ScalarText)
  | sequence (tag : Option String) (items : List Numbered)
  | mapping (tag : Option String) (entries : List (Numbered × Numbered))
  | alias (number : Nat)
  | anchored (number : Nat) (node : Numbered)

/-- The numbers of the names seen so far. -/
abbrev Names := OrderedMap String Nat

mutual

/-- Numbers the anchors and aliases of a node. -/
def number? (names : Names) : Node → Option (Numbered × Names)
  | .scalar value => some (.scalar value, names)
  | .sequence tag items => do
    let (items, names) ← numberItems? names items
    pure (.sequence tag items, names)
  | .mapping tag entries => do
    let (entries, names) ← numberEntries? names entries
    pure (.mapping tag entries, names)
  | .alias name => (names.get? name).map fun n => (.alias n, names)
  | .anchored name node => do
    let n := names.size
    let (node, names) ← number? (names.insert name n) node
    pure (.anchored n node, names)

/-- Numbers the anchors and aliases of nodes in order. -/
def numberItems? (names : Names) : List Node → Option (List Numbered × Names)
  | [] => some ([], names)
  | node :: rest => do
    let (node, names) ← number? names node
    let (rest, names) ← numberItems? names rest
    pure (node :: rest, names)

/-- Numbers the anchors and aliases of entries in order, keys before values. -/
def numberEntries? (names : Names) :
    List (Node × Node) → Option (List (Numbered × Numbered) × Names)
  | [] => some ([], names)
  | (key, value) :: rest => do
    let (key, names) ← number? names key
    let (value, names) ← number? names value
    let (rest, names) ← numberEntries? names rest
    pure ((key, value) :: rest, names)

end

namespace Numbered

mutual

/-- The nodes with anchors, in the order in which they start. -/
def anchors : Numbered → List (Nat × Numbered)
  | .scalar _ | .alias _ => []
  | .sequence _ items => itemAnchors items
  | .mapping _ entries => entryAnchors entries
  | .anchored n node => (n, node) :: anchors node

/-- The nodes with anchors in a list. -/
def itemAnchors : List Numbered → List (Nat × Numbered)
  | [] => []
  | node :: rest => anchors node ++ itemAnchors rest

/-- The nodes with anchors in entries. -/
def entryAnchors : List (Numbered × Numbered) → List (Nat × Numbered)
  | [] => []
  | (key, value) :: rest => anchors key ++ anchors value ++ entryAnchors rest

end

mutual

/-- The tree of a node, in which aliases stand for the nodes in `table`. An alias inside its own
node is cyclic. -/
def expand (table : OrderedMap Nat Numbered) (node : Numbered) : Tree :=
  match node with
  | .scalar value => .scalar value
  | .sequence tag items => .sequence tag (expandItems table items)
  | .mapping tag entries => .mapping tag (expandEntries table entries)
  | .anchored _ node => expand table node
  | .alias n =>
    match _found : table.get? n with
    | some node => expand (table.erase n) node
    | none => .cycle
termination_by (table.size, sizeOf node)
decreasing_by
  all_goals first
    | exact Prod.Lex.left _ _ (OrderedMap.size_erase_lt _found)
    | exact Prod.Lex.right _ (by simp +arith)

/-- The trees of a list of nodes. -/
def expandItems (table : OrderedMap Nat Numbered) (items : List Numbered) : List Tree :=
  match items with
  | [] => []
  | node :: rest => expand table node :: expandItems table rest
termination_by (table.size, sizeOf items)
decreasing_by all_goals exact Prod.Lex.right _ (by simp +arith)

/-- The trees of entries. -/
def expandEntries (table : OrderedMap Nat Numbered) (entries : List (Numbered × Numbered)) :
    List (Tree × Tree) :=
  match entries with
  | [] => []
  | (key, value) :: rest =>
    (expand table key, expand table value) :: expandEntries table rest
termination_by (table.size, sizeOf entries)
decreasing_by all_goals exact Prod.Lex.right _ (by simp +arith)

end

/-- The tree of a node. -/
def toTree (node : Numbered) : Tree := expand (.ofList node.anchors) node

end Numbered

/-- The tree of a node, unless it has an alias of an unknown name. -/
def Node.toTree? (node : Node) : Option Tree :=
  (number? ∅ node).map fun numbered => numbered.1.toTree

end ModelGraph.Yaml
