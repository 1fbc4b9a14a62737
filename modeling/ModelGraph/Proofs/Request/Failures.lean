import ModelGraph.Proofs.Request.Written

/-!
# The failures of a selection set

A selection set that expands may still hold failures, since the children of a field are expanded on
their own. Where all arguments can be read, its failures are those of its selections: a field fails
as the selections below it do, an inline fragment as its items and a spread as its fragment.

## Main definitions

- `SelectionTree.failuresOf` — the failures of an expanded selection set, at any level

## Main statements

- `SelectionTree.failuresOf_expand_eq_nil_iff` — a selection set is free of failures when each of its
  selections is
- `SelectionTree.exists_of_mem_failuresOf_expand` — a failure of a selection set is that of one of
  its selections
-/

namespace ModelGraph

namespace SelectionTree

variable {convert : ArgValue → Except SelectionError Json} {entered : List String}
  {fragments : OrderedMap String Fragment}

/-- The failures of an expanded selection set: its own one, or else those of its trees and of the
fields below them in preorder. -/
def failuresOf : Except SelectionError (List SelectionTree) → List SelectionError
  | .error e => [e]
  | .ok trees => (descendantsOf [] trees).flatMap fun field => field.2.ownFailures

mutual

/-- The fields below a field do not depend on the names on the way to it. -/
theorem map_snd_descendants (trail other : List String) : (root : SelectionTree) →
    (root.descendants trail).map Prod.snd = (root.descendants other).map Prod.snd
  | .node _ _ _ (.error _) => rfl
  | .node _ _ _ (.ok siblings) => map_snd_descendantsOf trail other siblings

theorem map_snd_descendantsOf (trail other : List String) : (siblings : List SelectionTree) →
    (descendantsOf trail siblings).map Prod.snd = (descendantsOf other siblings).map Prod.snd
  | [] => rfl
  | .node name key arguments children :: rest => by
    have hinner := map_snd_descendants (trail ++ [name]) (other ++ [name])
      (.node name key arguments children)
    have hrest := map_snd_descendantsOf trail other rest
    simp only [descendantsOf, List.cons_append, List.map_cons, List.map_append, hinner, hrest]

end

theorem flatMap_ownFailures_descendantsOf (trail : List String) (trees : List SelectionTree) :
    (descendantsOf trail trees).flatMap (fun field => field.2.ownFailures) =
      failuresOf (.ok trees) := by
  have hsame := congrArg (List.flatMap ownFailures) (map_snd_descendantsOf trail [] trees)
  rwa [List.flatMap_map, List.flatMap_map] at hsame

/-- The failures of a tree are those of its children. -/
theorem failures_eq (root : SelectionTree) : root.failures = failuresOf root.children := by
  obtain ⟨name, key, arguments, children⟩ := root
  cases children <;> rfl

theorem failuresOf_append (trees others : List SelectionTree) :
    failuresOf (.ok (trees ++ others)) = failuresOf (.ok trees) ++ failuresOf (.ok others) := by
  have happend : descendantsOf [] (trees ++ others) =
      descendantsOf [] trees ++ descendantsOf [] others := by
    induction trees with
    | nil => rfl
    | cons tree rest ih =>
      obtain ⟨name, key, arguments, children⟩ := tree
      simp only [List.cons_append, descendantsOf, ih, List.append_assoc]
  rw [failuresOf, happend, List.flatMap_append]
  rfl

theorem failuresOf_singleton (tree : SelectionTree) :
    failuresOf (.ok [tree]) = tree.argumentsError?.toList ++ tree.failures := by
  obtain ⟨name, key, arguments, children⟩ := tree
  cases children with
  | error e => simp [failuresOf, descendantsOf, descendants, ownFailures, failures]
  | ok children =>
    have hinner := flatMap_ownFailures_descendantsOf [name] children
    rw [failures_eq, SelectionTree.children, ← hinner]
    simp [failuresOf, descendantsOf, descendants, ownFailures, childrenError?, SelectionTree.children]

/-- Trees are free of failures when each of them can be read. -/
theorem failuresOf_eq_nil_iff {trees : List SelectionTree} : failuresOf (.ok trees) = [] ↔
    ∀ tree ∈ trees, tree.argumentsError? = none ∧ tree.failures = [] := by
  induction trees with
  | nil => simp [failuresOf, descendantsOf]
  | cons tree rest ih =>
    rw [← List.singleton_append, failuresOf_append, failuresOf_singleton, List.append_eq_nil_iff,
      List.append_eq_nil_iff, Option.toList_eq_nil_iff, ih, List.singleton_append,
      List.forall_mem_cons]

theorem mem_failuresOf_of_mem {trees : List SelectionTree} {tree : SelectionTree} (h : tree ∈ trees)
    {e : SelectionError} (he : e ∈ tree.failures) : e ∈ failuresOf (.ok trees) := by
  obtain ⟨front, back, rfl⟩ := List.append_of_mem h
  rw [← List.singleton_append, failuresOf_append, failuresOf_append, failuresOf_singleton]
  simp [he]

/-! ### One selection after another -/

theorem failuresOf_expand_cons_eq_nil_iff {selection : Selection} {rest : List Selection} :
    failuresOf (expand convert entered fragments (selection :: rest)) = [] ↔
      failuresOf (expand convert entered fragments [selection]) = [] ∧
        failuresOf (expand convert entered fragments rest) = [] := by
  rw [expand_cons]
  cases expand convert entered fragments [selection] with
  | error e => exact ⟨fun h => (by cases h), fun h => (by cases h.1)⟩
  | ok own =>
    cases expand convert entered fragments rest with
    | error e => exact ⟨fun h => (by cases h), fun h => (by cases h.2)⟩
    | ok others =>
      change failuresOf (.ok (own ++ others)) = [] ↔ _
      rw [failuresOf_append, List.append_eq_nil_iff]

/-- A selection set is free of failures when each of its selections is. -/
theorem failuresOf_expand_eq_nil_iff {selections : List Selection} :
    failuresOf (expand convert entered fragments selections) = [] ↔
      ∀ selection ∈ selections, failuresOf (expand convert entered fragments [selection]) = [] := by
  induction selections with
  | nil => simp [expand, failuresOf, descendantsOf]
  | cons selection rest ih => rw [failuresOf_expand_cons_eq_nil_iff, ih, List.forall_mem_cons]

/-- A failure of a selection set is that of one of its selections. -/
theorem exists_of_mem_failuresOf_expand {selections : List Selection} {e : SelectionError}
    (h : e ∈ failuresOf (expand convert entered fragments selections)) :
    ∃ selection ∈ selections, e ∈ failuresOf (expand convert entered fragments [selection]) := by
  induction selections with
  | nil => simp [expand, failuresOf, descendantsOf] at h
  | cons selection rest ih =>
    have hcases : e ∈ failuresOf (expand convert entered fragments [selection]) ∨
        e ∈ failuresOf (expand convert entered fragments rest) := by
      rw [expand_cons] at h
      cases hown : expand convert entered fragments [selection] with
      | error own =>
        rw [hown] at h
        exact .inl h
      | ok own =>
        cases hothers : expand convert entered fragments rest with
        | error other =>
          rw [hown, hothers] at h
          exact .inr h
        | ok others =>
          rw [hown, hothers] at h
          change e ∈ failuresOf (.ok (own ++ others)) at h
          rwa [failuresOf_append, List.mem_append] at h
    rcases hcases with hown | hrest
    · exact ⟨selection, List.mem_cons_self .., hown⟩
    · obtain ⟨other, hother, he⟩ := ih hrest
      exact ⟨other, List.mem_cons_of_mem _ hother, he⟩

/-! ### The failures of one selection -/

/-- A field whose arguments can be read fails as the selections below it do. -/
theorem failuresOf_expand_field {alias? : Option String} {name : String}
    {arguments : List (String × ArgValue)} {directives : List Directive} {inner : List Selection}
    {converted : FieldArguments} (h : convertAll convert arguments = .ok converted) :
    failuresOf (expand convert entered fragments [.field alias? name arguments directives inner]) =
      failuresOf (expand convert entered fragments inner) := by
  rw [expand_field, failuresOf_singleton, failures_eq, h]
  rfl

theorem expand_spread_of_mem {name : String} {directives : List Directive} (h : name ∈ entered) :
    expand convert entered fragments [.spread name directives] = .error (.cyclicFragment name) := by
  rw [expand, if_pos (by simpa using h)]

theorem expand_spread_of_get?_eq_none {name : String} {directives : List Directive}
    (hentered : name ∉ entered) (h : fragments.get? name = none) :
    expand convert entered fragments [.spread name directives] =
      .error (.unknownFragment name) := by
  rw [expand, if_neg (by simpa using hentered)]
  split
  · rfl
  · next fragment hsome => exact absurd (h.symm.trans hsome) (by simp)

theorem expand_spread_of_get?_eq_some {name : String} {directives : List Directive}
    {fragment : Fragment} (hentered : name ∉ entered) (h : fragments.get? name = some fragment) :
    expand convert entered fragments [.spread name directives] =
      expand convert (name :: entered) (fragments.erase name) fragment.selections := by
  rw [expand, if_neg (by simpa using hentered)]
  split
  · next hnone => exact absurd (h.symm.trans hnone) (by simp)
  · next found hsome =>
    obtain rfl := Option.some.inj (h.symm.trans hsome)
    rw [expand]
    cases expand convert (name :: entered) (fragments.erase name) fragment.selections with
    | error e => rfl
    | ok trees => exact congrArg Except.ok (List.append_nil trees)

end SelectionTree

end ModelGraph
