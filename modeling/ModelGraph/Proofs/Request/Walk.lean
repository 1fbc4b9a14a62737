import ModelGraph.Proofs.Text.Path
import ModelGraph.Request.SelectionTree

/-!
# Walks and preorder

A walk reads the children of the root, and then, for every field below it in preorder, the field's
arguments and its children. `SelectionTree.descendants` lists these fields for the whole tree, whatever
fails in it, and `SelectionTree.failures` the failures in the order in which a walk would meet them.

## Main definitions

- `SelectionTree.descendants` — the fields below a field in preorder, with the names on the way
- `SelectionTree.failures` — the failures of a tree in the order of reading
- `SelectionTree.readings` — the dotted paths and arguments of the fields whose arguments read

## Main statements

- `SelectionTree.walk_reading` — a walk that only reads arguments ends with the first failure, or
  else has folded all readings
-/

namespace ModelGraph

namespace SelectionTree

mutual

/-- The fields below a field in preorder, each with the names on the way to it. -/
def descendants (trail : List String) : SelectionTree → List (List String × SelectionTree)
  | .node _ _ _ (.error _) => []
  | .node _ _ _ (.ok children) => descendantsOf trail children

/-- The fields of a list of siblings and below them, in preorder. -/
def descendantsOf (trail : List String) : List SelectionTree → List (List String × SelectionTree)
  | [] => []
  | .node name key arguments children :: rest =>
    (trail ++ [name], .node name key arguments children)
      :: descendants (trail ++ [name]) (.node name key arguments children) ++ descendantsOf trail rest

end

theorem mem_descendantsOf_iff {trail : List String} {siblings : List SelectionTree}
    {field : List String × SelectionTree} :
    field ∈ descendantsOf trail siblings ↔ ∃ tree ∈ siblings,
      field = (trail ++ [tree.name], tree) ∨ field ∈ descendants (trail ++ [tree.name]) tree := by
  induction siblings with
  | nil => simp [descendantsOf]
  | cons tree rest ih =>
    obtain ⟨name, key, arguments, children⟩ := tree
    simp only [descendantsOf, List.cons_append, List.mem_cons, List.mem_append, ih, ← or_assoc,
      exists_eq_or_imp]
    rfl

/-- Why the arguments of a field cannot be read. -/
def argumentsError? (field : SelectionTree) : Option SelectionError :=
  match field.arguments with
  | .error e => some e
  | .ok _ => none

/-- Why the children of a field cannot be read. -/
def childrenError? (field : SelectionTree) : Option SelectionError :=
  match field.children with
  | .error e => some e
  | .ok _ => none

/-- The failures at a field: its arguments are read before its children. -/
def ownFailures (field : SelectionTree) : List SelectionError :=
  field.argumentsError?.toList ++ field.childrenError?.toList

/-- All failures of a tree: those of reading the root's children first, then those of the fields
below in preorder. The root's own arguments are not read. -/
def failures (root : SelectionTree) : List SelectionError :=
  root.childrenError?.toList ++ (root.descendants []).flatMap fun field => field.2.ownFailures

/-- The path and the arguments of every field below a root whose arguments can be read. -/
def readings (root : SelectionTree) : List (String × FieldArguments) :=
  (root.descendants []).filterMap fun field =>
    field.2.arguments.toOption.map fun arguments => (Path.joined field.1, arguments)

/-- The visitor that reads the arguments of a field and updates the state with them. -/
def reading {σ : Type} (update : String → FieldArguments → σ → σ) : Visitor σ :=
  fun path field state => do
    let arguments ← field.arguments
    pure (update path arguments state)

/-! ### A walk as a fold -/

section Fold

variable {σ : Type} (visitor : Visitor σ)

/-- What a walk does at one of the fields below its root: it visits the field and then reads its
children. -/
def stepAt (state : σ) (field : List String × SelectionTree) : Except SelectionError σ := do
  let state ← visitor (Path.joined field.1) field.2 state
  let _ ← field.2.children
  pure state

mutual

/-- A walk reads the children of its root and folds the fields below. -/
theorem walk_eq_foldlM (trail : List String) : (root : SelectionTree) → (state : σ) →
    walk visitor (Path.joined trail) root state =
      (root.children >>= fun _ => (root.descendants trail).foldlM (stepAt visitor) state)
  | .node _ _ _ (.error _), _ => rfl
  | .node _ _ _ (.ok siblings), state => walkAll_eq_foldlM trail siblings state

/-- A walk through siblings folds them and the fields below them. -/
theorem walkAll_eq_foldlM (trail : List String) : (siblings : List SelectionTree) → (state : σ) →
    walkAll visitor (Path.joined trail) siblings state =
      (descendantsOf trail siblings).foldlM (stepAt visitor) state
  | [], _ => rfl
  | .node name key arguments children :: rest, state => by
    have hinner := walk_eq_foldlM (trail ++ [name]) (.node name key arguments children)
    have hrest := walkAll_eq_foldlM trail rest
    rw [Path.joined_append] at hinner
    simp only [walkAll, descendantsOf, List.foldlM_cons, List.cons_append, List.foldlM_append, hinner,
      hrest, stepAt, Path.joined_append, bind_assoc, pure_bind]

end

end Fold

/-! ### The first failure -/

section Reading

variable {σ : Type} (update : String → FieldArguments → σ → σ)

/-- Folding fields stops at the first failure among them, or else folds their readings. -/
theorem foldlM_stepAt_reading (fields : List (List String × SelectionTree)) (state : σ) :
    fields.foldlM (stepAt (reading update)) state =
      match (fields.flatMap fun field => field.2.ownFailures).head? with
      | some e => .error e
      | none => .ok <| (fields.filterMap fun field =>
          field.2.arguments.toOption.map fun arguments => (Path.joined field.1, arguments)).foldl
            (fun state entry => update entry.1 entry.2 state) state := by
  induction fields generalizing state with
  | nil => rfl
  | cons field rest ih =>
    obtain ⟨trail, name, key, arguments, children⟩ := field
    rw [List.foldlM_cons]
    cases arguments with
    | error e => rfl
    | ok arguments =>
      cases children with
      | error e => rfl
      | ok children => exact ih (update (Path.joined trail) arguments state)

/-- A walk that only reads arguments ends with the first failure of the tree; without any, it has
folded all readings. -/
theorem walk_reading (root : SelectionTree) (state : σ) :
    root.walk (reading update) "" state =
      match root.failures.head? with
      | some e => .error e
      | none => .ok (root.readings.foldl (fun state entry => update entry.1 entry.2 state) state) := by
  obtain ⟨name, key, arguments, children⟩ := root
  have hwalk := walk_eq_foldlM (reading update) [] (.node name key arguments children) state
  rw [show Path.joined [] = "" from rfl] at hwalk
  rw [hwalk]
  cases children with
  | error e => rfl
  | ok children => exact foldlM_stepAt_reading update _ state

end Reading

/-! ### Names on the way -/

mutual

/-- No name on the way to a field is empty when no field below the root has an empty name. -/
theorem names_ne_empty (trail : List String) (htrail : ∀ name ∈ trail, name ≠ "") :
    (root : SelectionTree) → (∀ field ∈ root.descendants trail, field.2.name ≠ "") →
      ∀ field ∈ root.descendants trail, ∀ name ∈ field.1, name ≠ ""
  | .node _ _ _ (.error _), _ => by simp [descendants]
  | .node _ _ _ (.ok siblings), h => names_ne_empty_of_siblings trail htrail siblings h

theorem names_ne_empty_of_siblings (trail : List String) (htrail : ∀ name ∈ trail, name ≠ "") :
    (siblings : List SelectionTree) → (∀ field ∈ descendantsOf trail siblings, field.2.name ≠ "") →
      ∀ field ∈ descendantsOf trail siblings, ∀ name ∈ field.1, name ≠ ""
  | [], _ => by simp [descendantsOf]
  | .node name key arguments children :: rest, h => by
    have hmem : ∀ field, field ∈ descendantsOf trail (.node name key arguments children :: rest) ↔
        field = (trail ++ [name], .node name key arguments children)
          ∨ field ∈ descendants (trail ++ [name]) (.node name key arguments children)
          ∨ field ∈ descendantsOf trail rest := by
      intro field
      rw [descendantsOf, List.cons_append, List.mem_cons, List.mem_append]
    have hhere : ∀ n ∈ trail ++ [name], n ≠ "" := by
      intro n hn
      rcases List.mem_append.1 hn with hn | hn
      · exact htrail n hn
      · exact List.mem_singleton.1 hn ▸ h _ ((hmem _).2 (.inl rfl))
    intro field hfield
    rcases (hmem field).1 hfield with rfl | hfield | hfield
    · exact hhere
    · exact names_ne_empty (trail ++ [name]) hhere _
        (fun other hother => h other ((hmem other).2 (.inr (.inl hother)))) field hfield
    · exact names_ne_empty_of_siblings trail htrail rest
        (fun other hother => h other ((hmem other).2 (.inr (.inr hother)))) field hfield

end

end SelectionTree

end ModelGraph
