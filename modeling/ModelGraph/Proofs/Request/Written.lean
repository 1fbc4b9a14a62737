import ModelGraph.Proofs.OrderedMap
import ModelGraph.Proofs.Request.Walk
import ModelGraph.Proofs.Success

/-!
# Fields as a request writes them

A selection set selects the fields that stand in it, in its inline fragments and in the fragments it
spreads. Expansion makes a tree of each field that is selected and of no other one, so the fields
below a tree are the written fields below the one that it was made of.

## Main definitions

- `WrittenField` — a field as it is written
- `Selects`, `Below` — the fields that a selection set selects, and those below them
- `WrittenField.IsTree` — the trees of a field

## Main statements

- `WrittenField.IsTree.exists_descendant` — a written field below another one has a tree below its
  tree
- `exists_below_of_mem_descendants` — a tree below that of a written field is that of a written field
  below
-/

namespace ModelGraph

/-- A field as it is written. -/
structure WrittenField where
  alias? : Option String
  name : String
  arguments : List (String × ArgValue)
  selections : List Selection

/-- The key of a field in the response: its alias, or else its name. -/
def WrittenField.responseKey (field : WrittenField) : String := field.alias?.getD field.name

/-- A selection set selects a field: directly, in an inline fragment or through a spread. -/
inductive Selects (fragments : OrderedMap String Fragment) : List Selection → WrittenField → Prop
  | field {selections : List Selection} {field : WrittenField} {directives : List Directive} :
      .field field.alias? field.name field.arguments directives field.selections ∈ selections →
      Selects fragments selections field
  | inline {selections inner : List Selection} {field : WrittenField} {condition : Option String}
      {directives : List Directive} : .inline condition directives inner ∈ selections →
      Selects fragments inner field → Selects fragments selections field
  | spread {selections : List Selection} {field : WrittenField} {name : String}
      {fragment : Fragment} {directives : List Directive} : .spread name directives ∈ selections →
      fragments.get? name = some fragment → Selects fragments fragment.selections field →
      Selects fragments selections field

/-- A field below a selection set, at any level, with the names on the way to it. -/
inductive Below (fragments : OrderedMap String Fragment) :
    List Selection → List String → WrittenField → Prop
  | selected {selections : List Selection} {field : WrittenField} :
      Selects fragments selections field → Below fragments selections [field.name] field
  | deeper {selections : List Selection} {outer field : WrittenField} {trail : List String} :
      Selects fragments selections outer → Below fragments outer.selections trail field →
      Below fragments selections (outer.name :: trail) field

theorem Selection.count_le_countAll {selection : Selection} {selections : List Selection}
    (h : selection ∈ selections) : selection.count ≤ countAll selections := by
  induction selections with
  | nil => cases h
  | cons first rest ih =>
    rw [countAll]
    rcases List.mem_cons.1 h with rfl | h
    · exact Nat.le_add_right _ _
    · exact Nat.le_trans (ih h) (Nat.le_add_left _ _)

namespace SelectionTree

variable {convert : ArgValue → Except SelectionError Json} {entered : List String}
  {fragments all : OrderedMap String Fragment}

/-! ### Expanding one selection after another -/

theorem expand_field {alias? : Option String} {name : String} {arguments : List (String × ArgValue)}
    {directives : List Directive} {inner : List Selection} :
    expand convert entered fragments [.field alias? name arguments directives inner] =
      .ok [node name (alias?.getD name) (convertAll convert arguments)
        (expand convert entered fragments inner)] := by
  rw [expand, expand]
  rfl

theorem expand_inline {condition : Option String} {directives : List Directive}
    {inner : List Selection} :
    expand convert entered fragments [.inline condition directives inner] =
      expand convert entered fragments inner := by
  rw [expand, expand]
  cases expand convert entered fragments inner with
  | error e => rfl
  | ok trees => exact congrArg Except.ok (List.append_nil trees)

theorem expand_spread_eq_ok_iff {name : String} {directives : List Directive}
    {trees : List SelectionTree} :
    expand convert entered fragments [.spread name directives] = .ok trees ↔
      name ∉ entered ∧ ∃ fragment, fragments.get? name = some fragment ∧
        expand convert (name :: entered) (fragments.erase name) fragment.selections = .ok trees := by
  rw [expand, expand]
  by_cases hentered : name ∈ entered
  · simp [hentered]
  · rw [if_neg (by simpa using hentered)]
    split
    · next hnone => simp [hnone]
    · next fragment hsome =>
      simp only [hsome, Option.some.injEq, exists_eq_left', hentered, not_false_eq_true, true_and]
      cases expand convert (name :: entered) (fragments.erase name) fragment.selections with
      | error e => exact Iff.rfl
      | ok inner =>
        change Except.ok (inner ++ []) = .ok trees ↔ _
        rw [List.append_nil]

theorem expand_cons {selection : Selection} {rest : List Selection} :
    expand convert entered fragments (selection :: rest) = (do
      let own ← expand convert entered fragments [selection]
      let others ← expand convert entered fragments rest
      pure (own ++ others)) := by
  cases selection with
  | field alias? name arguments directives inner =>
    rw [expand_field, expand]
    rfl
  | inline condition directives inner => rw [expand_inline, expand]
  | spread name directives =>
    simp only [expand]
    split
    · rfl
    · split
      · rfl
      · simp only [bind_assoc, pure_bind]
        refine bind_congr fun trees => ?_
        change _ = (do
          let others ← expand convert entered fragments rest
          pure (trees ++ [] ++ others))
        rw [List.append_nil]

/-- The trees of a selection set are those of its selections. -/
theorem mem_expand_iff {selections : List Selection} {trees : List SelectionTree}
    (h : expand convert entered fragments selections = .ok trees) {tree : SelectionTree} :
    tree ∈ trees ↔ ∃ selection ∈ selections, ∃ own,
      expand convert entered fragments [selection] = .ok own ∧ tree ∈ own := by
  induction selections generalizing trees with
  | nil =>
    rw [expand] at h
    cases h
    simp
  | cons selection rest ih =>
    rw [expand_cons] at h
    obtain ⟨own, hown, h⟩ := bind_eq_ok_iff.1 h
    obtain ⟨others, hothers, h⟩ := bind_eq_ok_iff.1 h
    cases h
    simp only [List.mem_append, ih hothers, List.mem_cons, exists_eq_or_imp, hown, Except.ok.injEq,
      exists_eq_left']

/-- Every selection of a selection set that expands does. -/
theorem exists_expand_of_mem {selections : List Selection} {trees : List SelectionTree}
    (h : expand convert entered fragments selections = .ok trees) {selection : Selection}
    (hmem : selection ∈ selections) :
    ∃ own, expand convert entered fragments [selection] = .ok own := by
  induction selections generalizing trees with
  | nil => cases hmem
  | cons first rest ih =>
    rw [expand_cons] at h
    obtain ⟨own, hown, h⟩ := bind_eq_ok_iff.1 h
    obtain ⟨others, hothers, -⟩ := bind_eq_ok_iff.1 h
    rcases List.mem_cons.1 hmem with rfl | hmem
    · exact ⟨own, hown⟩
    · exact ih hothers hmem

/-! ### The trees of a field -/

/-- The fragments that are left after some were entered. -/
def IsLeft (all : OrderedMap String Fragment) (entered : List String)
    (fragments : OrderedMap String Fragment) : Prop :=
  ∀ name, fragments.get? name = if name ∈ entered then none else all.get? name

theorem IsLeft.start (all : OrderedMap String Fragment) : IsLeft all [] all :=
  fun _ => (if_neg List.not_mem_nil).symm

theorem IsLeft.enter (h : IsLeft all entered fragments) (name : String) :
    IsLeft all (name :: entered) (fragments.erase name) := by
  intro other
  rw [OrderedMap.get?_erase, h]
  by_cases hname : name = other <;> by_cases hentered : other ∈ entered <;>
    simp [hname, hentered, eq_comm]

theorem IsLeft.get?_of_get? (h : IsLeft all entered fragments) {name : String}
    {fragment : Fragment} (hget : fragments.get? name = some fragment) :
    all.get? name = some fragment := by
  rw [h] at hget
  split at hget
  · cases hget
  · exact hget

end SelectionTree

open SelectionTree

variable {convert : ArgValue → Except SelectionError Json} {entered : List String}
  {fragments all : OrderedMap String Fragment}

/-- The trees that expansion makes of a field, whatever fragments were entered on the way. -/
def WrittenField.IsTree (all : OrderedMap String Fragment)
    (convert : ArgValue → Except SelectionError Json) (field : WrittenField)
    (tree : SelectionTree) : Prop :=
  ∃ entered fragments, IsLeft all entered fragments ∧
    tree = .node field.name field.responseKey (convertAll convert field.arguments)
      (expand convert entered fragments field.selections)

namespace WrittenField.IsTree

variable {field : WrittenField} {tree : SelectionTree}

theorem name_eq (h : field.IsTree all convert tree) : tree.name = field.name := by
  obtain ⟨_, _, _, rfl⟩ := h
  rfl

theorem responseKey_eq (h : field.IsTree all convert tree) :
    tree.responseKey = field.responseKey := by
  obtain ⟨_, _, _, rfl⟩ := h
  rfl

theorem arguments_eq (h : field.IsTree all convert tree) :
    tree.arguments = convertAll convert field.arguments := by
  obtain ⟨_, _, _, rfl⟩ := h
  rfl

end WrittenField.IsTree

/-- A field that is selected has a tree. -/
theorem Selects.exists_tree {selections : List Selection} {field : WrittenField}
    (h : Selects all selections field) {trees : List SelectionTree}
    (hleft : IsLeft all entered fragments)
    (hok : expand convert entered fragments selections = .ok trees) :
    ∃ tree ∈ trees, field.IsTree all convert tree := by
  induction h generalizing entered fragments trees with
  | field hmem =>
    exact ⟨_, (mem_expand_iff hok).2 ⟨_, hmem, _, expand_field, List.mem_singleton_self _⟩,
      entered, fragments, hleft, rfl⟩
  | inline hmem _ ih =>
    obtain ⟨own, hown⟩ := exists_expand_of_mem hok hmem
    obtain ⟨tree, htree, his⟩ := ih hleft (expand_inline.symm.trans hown)
    exact ⟨tree, (mem_expand_iff hok).2 ⟨_, hmem, own, hown, htree⟩, his⟩
  | @spread selections field name fragment _ hmem hget _ ih =>
    obtain ⟨own, hown⟩ := exists_expand_of_mem hok hmem
    obtain ⟨hentered, found, hfound, hinner⟩ := expand_spread_eq_ok_iff.1 hown
    -- What is left under a name is what the document has there, so both fragments are one.
    obtain rfl : found = fragment := Option.some.inj ((hleft.get?_of_get? hfound).symm.trans hget)
    obtain ⟨tree, htree, his⟩ := ih (hleft.enter name) hinner
    exact ⟨tree, (mem_expand_iff hok).2 ⟨_, hmem, own, hown, htree⟩, his⟩

/-- A tree that expansion makes is that of a field that is selected. -/
theorem exists_selects_of_mem (entered : List String) (fragments : OrderedMap String Fragment)
    (selections : List Selection) {trees : List SelectionTree} (hleft : IsLeft all entered fragments)
    (hok : expand convert entered fragments selections = .ok trees) {tree : SelectionTree}
    (htree : tree ∈ trees) :
    ∃ field, Selects all selections field ∧ field.IsTree all convert tree := by
  obtain ⟨selection, hmem, own, hown, hin⟩ := (mem_expand_iff hok).1 htree
  cases selection with
  | field alias? name arguments directives inner =>
    rw [expand_field] at hown
    cases hown
    exact ⟨⟨alias?, name, arguments, inner⟩, .field hmem, entered, fragments, hleft,
      List.mem_singleton.1 hin⟩
  | inline condition directives inner =>
    rw [expand_inline] at hown
    obtain ⟨field, hfield, his⟩ := exists_selects_of_mem entered fragments inner hleft hown hin
    exact ⟨field, .inline hmem hfield, his⟩
  | spread name directives =>
    obtain ⟨-, fragment, hget, hinner⟩ := expand_spread_eq_ok_iff.1 hown
    obtain ⟨field, hfield, his⟩ := exists_selects_of_mem (name :: entered) (fragments.erase name)
      fragment.selections (hleft.enter name) hinner hin
    exact ⟨field, .spread hmem (hleft.get?_of_get? hget) hfield, his⟩
-- As in the expansion, a fragment that is entered leaves the fragments that may still be.
termination_by Fragment.countAll fragments + Selection.countAll selections
decreasing_by
  · have hcount := Selection.count_le_countAll hmem
    rw [Selection.count] at hcount
    omega
  · have hcount := Selection.count_le_countAll hmem
    have hleft := Fragment.countAll_erase_le hget
    rw [Selection.count] at hcount
    omega

/-! ### Fields below a field -/

/-- A written field below a selection set has a tree below those of the set, with the same names on
the way, when nothing below them fails to expand. -/
theorem Below.exists_descendant {selections : List Selection} {names : List String}
    {field : WrittenField} (h : Below all selections names field) (trail : List String)
    {trees : List SelectionTree} (hleft : IsLeft all entered fragments)
    (hok : expand convert entered fragments selections = .ok trees)
    (hread : ∀ other ∈ descendantsOf trail trees, other.2.childrenError? = none) :
    ∃ tree, (trail ++ names, tree) ∈ descendantsOf trail trees ∧ field.IsTree all convert tree := by
  induction h generalizing entered fragments trail trees with
  | selected hselects =>
    obtain ⟨tree, htree, his⟩ := hselects.exists_tree hleft hok
    rw [← his.name_eq]
    exact ⟨_, mem_descendantsOf_iff.2 ⟨_, htree, .inl rfl⟩, his⟩
  | @deeper selections outer field names hselects _ ih =>
    obtain ⟨tree, htree, inside, left, hinside, rfl⟩ := hselects.exists_tree hleft hok
    cases hinner : expand convert inside left outer.selections with
    | error e =>
      -- The field itself stands among those below the set, and its children cannot be read.
      have hnone := hread _ (mem_descendantsOf_iff.2 ⟨_, htree, .inl rfl⟩)
      rw [hinner] at hnone
      cases hnone
    | ok inner =>
      rw [hinner] at htree
      have hsub : ∀ other ∈ descendantsOf (trail ++ [outer.name]) inner,
          other ∈ descendantsOf trail trees :=
        fun other hother => mem_descendantsOf_iff.2 ⟨_, htree, .inr hother⟩
      obtain ⟨tree, hmem, his⟩ := ih _ hinside hinner fun other hother => hread other (hsub _ hother)
      rw [List.append_assoc] at hmem
      exact ⟨tree, by simpa using hsub _ hmem, his⟩

/-- A written field below another one has a tree below the tree of that one, when nothing in that
tree fails. -/
theorem WrittenField.IsTree.exists_descendant {outer field : WrittenField} {root : SelectionTree}
    {names : List String} (h : outer.IsTree all convert root) (hread : root.failures = [])
    (hbelow : Below all outer.selections names field) :
    ∃ tree, (names, tree) ∈ root.descendants [] ∧ field.IsTree all convert tree := by
  obtain ⟨entered, fragments, hleft, rfl⟩ := h
  obtain ⟨hroot, hothers⟩ := List.append_eq_nil_iff.1 hread
  cases hinner : expand convert entered fragments outer.selections with
  | error e =>
    rw [hinner] at hroot
    cases hroot
  | ok inner =>
    rw [hinner] at hothers
    refine hbelow.exists_descendant [] hleft hinner fun other hother => ?_
    have hown := List.flatMap_eq_nil_iff.1 hothers other hother
    exact Option.toList_eq_nil_iff.1 (List.append_eq_nil_iff.1 hown).2

mutual

/-- A tree below that of a written field is the tree of a written field below, with the same names
on the way. -/
theorem exists_below_of_mem_descendants (trail : List String) : (root : SelectionTree) →
    {outer : WrittenField} → outer.IsTree all convert root → ∀ other ∈ root.descendants trail,
      ∃ names field, other.1 = trail ++ names ∧ Below all outer.selections names field ∧
        field.IsTree all convert other.2
  | .node _ _ _ (.error _), _, _ => by simp [descendants]
  | .node _ _ _ (.ok siblings), outer, h => by
    obtain ⟨entered, fragments, hleft, htree⟩ := h
    have hok : expand convert entered fragments outer.selections = .ok siblings :=
      (SelectionTree.node.inj htree).2.2.2.symm
    exact exists_below_of_mem_descendantsOf trail siblings fun tree htree =>
      exists_selects_of_mem entered fragments outer.selections hleft hok htree

theorem exists_below_of_mem_descendantsOf (trail : List String) {selections : List Selection} :
    (siblings : List SelectionTree) → (∀ tree ∈ siblings, ∃ field,
      Selects all selections field ∧ field.IsTree all convert tree) →
    ∀ other ∈ descendantsOf trail siblings, ∃ names field, other.1 = trail ++ names ∧
      Below all selections names field ∧ field.IsTree all convert other.2
  | [], _ => by simp [descendantsOf]
  | .node name key arguments children :: rest, h => by
    intro other hother
    obtain ⟨outer, hselects, his⟩ := h _ (List.mem_cons_self ..)
    have hname : name = outer.name := his.name_eq
    rw [descendantsOf, List.cons_append, List.mem_cons, List.mem_append] at hother
    rcases hother with rfl | hother | hother
    · exact ⟨[name], outer, rfl, hname ▸ .selected hselects, his⟩
    · obtain ⟨names, field, htrail, hbelow, hfield⟩ :=
        exists_below_of_mem_descendants (trail ++ [name]) _ his other hother
      refine ⟨name :: names, field, ?_, hname ▸ .deeper hselects hbelow, hfield⟩
      rw [htrail, List.append_assoc, List.singleton_append]
    · exact exists_below_of_mem_descendantsOf trail rest
        (fun tree htree => h tree (List.mem_cons_of_mem _ htree)) other hother

end

end ModelGraph
