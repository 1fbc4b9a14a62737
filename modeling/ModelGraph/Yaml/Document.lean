import ModelGraph.Yaml.Anchor
import ModelGraph.Yaml.Layout

/-!
# YAML documents

A text is one document: directives, which need a document mark after them, the root node, and
possibly an end mark. Nothing at all is a document too, whose root is an empty scalar.

## Main definitions

- `Tree.ofYaml?` — the tree of a text
-/

namespace ModelGraph.Yaml

/-- Directives in front of a document. -/
structure Directives where
  version : Option (Nat × Nat) := none
  handles : List (String × String) := []

/-- Takes the directives in front of a document. There may be one version, which has to be known,
and one expansion for each handle. -/
def takeDirectives (found : Directives) : List Token → Option (Directives × List Token)
  | .version major minor :: rest =>
    if found.version.isNone ∧ major = 1 ∧ (minor = 1 ∨ minor = 2) then
      takeDirectives { found with version := some (major, minor) } rest
    else none
  | .tagHandle handle expansion :: rest =>
    if found.handles.any fun given => given.1 = handle then none
    else takeDirectives { found with handles := found.handles ++ [(handle, expansion)] } rest
  | rest => some (found, rest)

/-- What handles stand for in a document: directives come before what every document has. -/
def Directives.expansions (directives : Directives) : Handles :=
  .ofList (standardHandles ++ directives.handles)

/-- Whether a token stands between documents. -/
def isBetweenDocuments : Token → Bool
  | .version _ _ | .tagHandle _ _ | .documentStart | .documentEnd => true
  | _ => false

/-- The root of a document without a mark. -/
def implicitRoot? (s : List Token) : Option (Node × List Token) :=
  (takeNode (Directives.expansions {}) .block s).map fun t => (t.value, t.rest)

/-- The root of a document with directives and a mark. -/
def explicitRoot? (s : List Token) : Option (Node × List Token) := do
  let (directives, rest) ← takeDirectives {} s
  match rest with
  | .documentStart :: rest =>
    let (node, ⟨rest, _⟩) ← takePart directives.expansions .block isBetweenDocuments rest
    pure (node, rest)
  | _ => none

/-- The root of a document. -/
def root? (s : List Token) : Option (Node × List Token) :=
  match s with
  | [] => some (.empty, [])
  | .version _ _ :: _ | .tagHandle _ _ :: _ | .documentStart :: _ => explicitRoot? s
  | _ => implicitRoot? s

end ModelGraph.Yaml

namespace ModelGraph

open Yaml

/-- How deep collections may nest. -/
def Tree.maxDepth : Nat := 128

mutual

/-- How deep collections nest. -/
def Tree.depth : Tree → Nat
  | .scalar _ | .cycle => 0
  | .sequence _ items => 1 + Tree.depthOfItems items
  | .mapping _ entries => 1 + Tree.depthOfEntries entries

/-- How deep collections nest in a list. -/
def Tree.depthOfItems : List Tree → Nat
  | [] => 0
  | item :: rest => max item.depth (Tree.depthOfItems rest)

/-- How deep collections nest in entries. -/
def Tree.depthOfEntries : List (Tree × Tree) → Nat
  | [] => 0
  | (key, value) :: rest => max (max key.depth value.depth) (Tree.depthOfEntries rest)

end

/-- The tree of a text that is a single YAML document. -/
def Tree.ofYaml? (text : String) : Option Tree := do
  let tokens ← tokens? text
  let (node, rest) ← root? tokens
  if rest.all (· == .documentEnd) then
    let tree ← node.toTree?
    if tree.depth ≤ Tree.maxDepth then pure tree else none
  else none

end ModelGraph
