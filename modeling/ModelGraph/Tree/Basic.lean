import ModelGraph.Json.Basic

/-!
# Document trees

A document as it was written: scalars with their spelling and style, sequences, and mappings with
arbitrary keys. YAML documents read as trees directly, and JSON values are trees of a plainer kind.

## Main definitions

- `Tree` — a document
- `Tree.ofJson` — a JSON value as a tree
- `Tree.size` — a measure that every part of a tree undercuts
-/

namespace ModelGraph

/-- A scalar as written. -/
structure ScalarText where
  text : String
  /-- Whether it stands without quotes or block indicator. -/
  plain : Bool := true
  /-- The tag given to it. -/
  tag : Option String := none
deriving DecidableEq, Repr

/-- Whether nothing was written at all. -/
def ScalarText.isBlank (s : ScalarText) : Bool :=
  s.plain && s.text.isEmpty

/-- A document as written. -/
inductive Tree where
  | scalar (value : ScalarText)
  | sequence (tag : Option String) (items : List Tree)
  | mapping (tag : Option String) (entries : List (Tree × Tree))
  /-- An alias of a node that it stands in. -/
  | cycle

namespace Tree

instance : Inhabited Tree := ⟨.cycle⟩

mutual

/-- A JSON value as a tree: strings are quoted scalars, all other scalars are plain. -/
def ofJson : Json → Tree
  | .null => .scalar { text := "null" }
  | .bool true => .scalar { text := "true" }
  | .bool false => .scalar { text := "false" }
  | .number n => .scalar { text := n.text }
  | .string s => .scalar { text := s, plain := false }
  | .array items => .sequence none (ofJsonItems items)
  | .object members => .mapping none (ofJsonMembers members)

/-- The items of an array as trees. -/
def ofJsonItems : List Json → List Tree
  | [] => []
  | item :: rest => ofJson item :: ofJsonItems rest

/-- The members of an object as entries. -/
def ofJsonMembers : List (String × Json) → List (Tree × Tree)
  | [] => []
  | (name, value) :: rest =>
    (.scalar { text := name, plain := false }, ofJson value) :: ofJsonMembers rest

end

mutual

/-- The number of nodes. -/
def size : Tree → Nat
  | .scalar _ => 1
  | .sequence _ items => 1 + sizeItems items
  | .mapping _ entries => 1 + sizeEntries entries
  | .cycle => 1

/-- The number of nodes in a list. -/
def sizeItems : List Tree → Nat
  | [] => 0
  | item :: rest => size item + sizeItems rest

/-- The number of nodes in a list of entries. -/
def sizeEntries : List (Tree × Tree) → Nat
  | [] => 0
  | (key, value) :: rest => size key + size value + sizeEntries rest

end

theorem size_pos (t : Tree) : 0 < t.size := by
  cases t <;> simp only [size] <;> omega

end Tree

end ModelGraph
