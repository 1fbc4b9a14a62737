import ModelGraph.Proofs.Graph.Build

/-!
# Where kept fields are declared

Every kept field is listed with the place of its declaration, and so are the fields below it.

## Main definitions

- `PlacedField` — a kept field with the place of its declaration
- `KeptField.placedAll` — fields and the fields below them, with their places

## Main statements

- `KeptField.fields_placedAll` — the fields are the same wherever they are declared
- `KeptField.placedAll_subset` — what is declared below one of the fields is declared below them
-/

namespace ModelGraph

/-- A kept field with the place of its declaration: its root type, and the dotted path of the type
that it belongs to. -/
structure PlacedField where
  owner : String
  path : String
  field : KeptField

namespace KeptField

mutual

/-- A field and the fields below it, with their places. -/
def placed (owner path : String) : KeptField → List PlacedField
  | .value head type enums => [⟨owner, path, .value head type enums⟩]
  | .reference head target cardinality => [⟨owner, path, .reference head target cardinality⟩]
  | .shape head inList object embedded fields =>
    ⟨owner, path, .shape head inList object embedded fields⟩ ::
      placedAll owner (Path.child path head.source) fields

/-- Fields and the fields below them, with their places. -/
def placedAll (owner path : String) : List KeptField → List PlacedField
  | [] => []
  | kept :: rest => placed owner path kept ++ placedAll owner path rest

end

theorem mem_placedAll {owner path : String} {kept : List KeptField} {found : PlacedField} :
    found ∈ placedAll owner path kept ↔ ∃ field ∈ kept, found ∈ placed owner path field := by
  induction kept with
  | nil => simp [placedAll]
  | cons first rest ih => simp [placedAll, ih]

theorem mem_placed_self (owner path : String) (kept : KeptField) :
    ⟨owner, path, kept⟩ ∈ placed owner path kept := by
  cases kept <;> rw [placed]
  · exact List.mem_singleton_self _
  · exact List.mem_singleton_self _
  · exact List.mem_cons_self ..

theorem mem_placedAll_self {owner path : String} {kept : List KeptField} {field : KeptField}
    (h : field ∈ kept) : ⟨owner, path, field⟩ ∈ placedAll owner path kept :=
  mem_placedAll.2 ⟨field, h, mem_placed_self owner path field⟩

mutual

theorem fields_placed (owner path other place : String) : (kept : KeptField) →
    (placed owner path kept).map PlacedField.field = (placed other place kept).map PlacedField.field
  | .value _ _ _ | .reference _ _ _ => by
    rw [placed, placed]
    rfl
  | .shape head inList object embedded fields => by
    rw [placed, placed, List.map_cons, List.map_cons]
    exact congrArg _ (fields_placedAll owner (Path.child path head.source) other
      (Path.child place head.source) fields)

/-- The fields themselves do not depend on where they are declared. -/
theorem fields_placedAll (owner path other place : String) : (kept : List KeptField) →
    (placedAll owner path kept).map PlacedField.field =
      (placedAll other place kept).map PlacedField.field
  | [] => rfl
  | kept :: rest => by
    rw [placedAll, placedAll, List.map_append, List.map_append,
      fields_placed owner path other place kept, fields_placedAll owner path other place rest]

end

mutual

theorem placed_subset (owner path : String) : (kept : KeptField) → ∀ found ∈ placed owner path kept,
    placed found.owner found.path found.field ⊆ placed owner path kept
  | .value head type enums => by
    rw [placed]
    intro found h
    rw [List.mem_singleton.1 h, placed]
    exact List.Subset.refl _
  | .reference head target cardinality => by
    rw [placed]
    intro found h
    rw [List.mem_singleton.1 h, placed]
    exact List.Subset.refl _
  | .shape head inList object embedded fields => by
    rw [placed]
    intro found h
    rcases List.mem_cons.1 h with rfl | h
    · rw [placed]
      exact List.Subset.refl _
    · exact List.subset_cons_of_subset _
        (placedAll_subset owner (Path.child path head.source) fields found h)

/-- What is declared below one of the fields is declared below them. -/
theorem placedAll_subset (owner path : String) : (kept : List KeptField) →
    ∀ found ∈ placedAll owner path kept,
      placed found.owner found.path found.field ⊆ placedAll owner path kept
  | [] => by
    rw [placedAll]
    exact fun _ h => absurd h List.not_mem_nil
  | kept :: rest => by
    rw [placedAll]
    intro found h
    rcases List.mem_append.1 h with h | h
    · exact List.subset_append_of_subset_left _ (placed_subset owner path kept found h)
    · exact List.subset_append_of_subset_right _ (placedAll_subset owner path rest found h)

end

theorem placedAll_append (owner path : String) (kept others : List KeptField) :
    placedAll owner path (kept ++ others) =
      placedAll owner path kept ++ placedAll owner path others := by
  induction kept with
  | nil => rfl
  | cons first rest ih => rw [List.cons_append, placedAll, placedAll, ih, List.append_assoc]

theorem placedAll_singleton (owner path : String) (kept : KeptField) :
    placedAll owner path [kept] = placed owner path kept := by
  rw [placedAll, placedAll, List.append_nil]

mutual

theorem mem_objectNames_of_placed (owner path : String) : (kept : KeptField) →
    ∀ found ∈ placed owner path kept, ∀ head inList object embedded fields,
      found.field = .shape head inList object embedded fields → object ∈ objectNames kept
  | .value _ _ _ => by
    rw [placed]
    intro found h head inList object embedded fields hfield
    rw [List.mem_singleton.1 h] at hfield
    cases hfield
  | .reference _ _ _ => by
    rw [placed]
    intro found h head inList object embedded fields hfield
    rw [List.mem_singleton.1 h] at hfield
    cases hfield
  | .shape first _ name _ kept => by
    rw [placed, objectNames]
    intro found h head inList object embedded fields hfield
    rcases List.mem_cons.1 h with rfl | h
    · cases hfield
      exact List.mem_append_right _ (List.mem_singleton_self _)
    · exact List.mem_append_left _ (mem_objectNamesAll_of_placed owner
        (Path.child path first.source) kept found h head inList object embedded fields hfield)

/-- The object type of a shape is one that the fields add. -/
theorem mem_objectNamesAll_of_placed (owner path : String) : (kept : List KeptField) →
    ∀ found ∈ placedAll owner path kept, ∀ head inList object embedded fields,
      found.field = .shape head inList object embedded fields → object ∈ objectNamesAll kept
  | [] => by
    rw [placedAll]
    exact fun _ h => absurd h List.not_mem_nil
  | kept :: rest => by
    rw [placedAll, objectNamesAll]
    intro found h head inList object embedded fields hfield
    rcases List.mem_append.1 h with h | h
    · exact List.mem_append_left _
        (mem_objectNames_of_placed owner path kept found h head inList object embedded fields hfield)
    · exact List.mem_append_right _ (mem_objectNamesAll_of_placed owner path rest found h head inList
        object embedded fields hfield)

end

end KeptField

/-- The field and the fields below it. -/
def PlacedField.below (placed : PlacedField) : List PlacedField :=
  KeptField.placed placed.owner placed.path placed.field

end ModelGraph
