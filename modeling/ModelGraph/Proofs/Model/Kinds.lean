import ModelGraph.Model.Decode

/-!
# Scalar kinds as read

A scalar kind is read from a text, and its name is written. Every kind that some text is read as is
read from its own name again; a kind of its own that is spelled like a canonical one is not, since
its name is read as the canonical kind. The decoder of fields only ever gives kinds as read, at any
depth and in either reading.

## Main definitions

- `ScalarKind.IsRead` — a kind that some text is read as
- `FieldDecl.KindsRead`, `FieldDecl.AllKindsRead` — the same of all kinds in a field and in fields

## Main statements

- `ScalarKind.IsRead.ofName_name` — the name of a kind as read is read as that kind
- `FieldDecl.allKindsRead_of_allOf?` — the kinds of fields as read are kinds as read
-/

namespace ModelGraph

/-! ## Kinds -/

/-- Whether a kind is what some text is read as. A kind of its own that is spelled like a canonical
one is not: its name is read as the canonical kind. -/
def ScalarKind.IsRead (kind : ScalarKind) : Prop :=
  ∃ text, ofName text = kind

namespace ScalarKind

/-- The canonical name of a kind as read is read as that kind again. -/
theorem IsRead.ofName_name {kind : ScalarKind} (h : kind.IsRead) : ofName kind.name = kind := by
  obtain ⟨text, htext⟩ := h
  cases kind with
  | other name =>
    -- an unknown kind keeps the text that it was read from
    have hname : text = name := by
      rw [ofName] at htext
      grind
    rw [ScalarKind.name, ← hname, htext, hname]
  | string | number | date | buffer | boolean | objectId => decide +kernel

theorem ofName_name_iff {kind : ScalarKind} : ofName kind.name = kind ↔ kind.IsRead :=
  ⟨fun h => ⟨kind.name, h⟩, IsRead.ofName_name⟩

instance (kind : ScalarKind) : Decidable kind.IsRead :=
  decidable_of_iff _ ofName_name_iff

example : (ScalarKind.other "Decimal").IsRead ∧ ¬(ScalarKind.other "String").IsRead := by
  decide +kernel

end ScalarKind

/-! ## Kinds below fields -/

namespace FieldDecl

mutual

/-- Whether the scalar kinds of a field and below it are what some text is read as. -/
def KindsRead : FieldDecl → Prop
  | ⟨_, shape, _, _, _, _⟩ => ShapeKindsRead shape

/-- Whether the scalar kinds of a shape and below it are what some text is read as. -/
def ShapeKindsRead : FieldShape FieldDecl → Prop
  | .scalar kind _ => kind.IsRead
  | .list element => ElementKindsRead element
  | .nested fields => AllKindsRead fields
  | .embedded _ fields => AllKindsRead fields
  | .reference _ _ => True

/-- Whether the scalar kinds of an element shape and below it are what some text is read as. -/
def ElementKindsRead : ElementShape FieldDecl → Prop
  | .scalar kind _ => kind.IsRead
  | .nested fields => AllKindsRead fields
  | .embedded _ fields => AllKindsRead fields

/-- Whether the scalar kinds of fields and below them are what some text is read as. -/
def AllKindsRead : List FieldDecl → Prop
  | [] => True
  | field :: rest => KindsRead field ∧ AllKindsRead rest

end

/-! ### What a field is read from -/

/-- The shape of a field is read from smaller parts. -/
theorem exists_shapeOf?_of_ofTree? {reading : Reading} {t : Tree} {field : FieldDecl}
    (h : ofTree? reading t = some field) :
    ∃ r : Record, r.size < t.size ∧ shapeOf? r = some field.shape := by
  cases t with
  | mapping tag entries =>
    rw [ofTree?] at h
    split at h
    · cases h
    · next members hmembers =>
      dsimp only at h
      split at h
      · simp only [Option.bind_eq_bind, Option.bind_eq_some_iff] at h
        obtain ⟨name, -, nonNull, -, hidden, -, description, -, hooks, -, shape, hshape, hfield⟩ := h
        cases hfield
        refine ⟨_, ?_, hshape⟩
        have hothers := Record.membersSize_filter_le (fun member => !isCommonPart member) members
        have hentries := Record.membersSize_le hmembers
        simp only [Record.size, Tree.size]
        omega
      · cases h
  | scalar _ | sequence _ _ | cycle =>
    rw [ofTree?] at h
    · cases h
    · intro tag entries hmapping
      cases hmapping

theorem isRead_of_required {r : Record} {names : List String} {field : String} {kind : ScalarKind}
    (h : r.required names field scalarKind? = some kind) : kind.IsRead := by
  simp only [Record.required, Option.bind_eq_bind, Option.bind_eq_some_iff, scalarKind?,
    Option.map_eq_some_iff] at h
  obtain ⟨_, -, text, -, hkind⟩ := h
  exact ⟨text, hkind⟩

/-- What the parts of a shape are read from: its kinds from texts, all below it from smaller
parts. -/
theorem parts_of_shapeOf? {r : Record} {shape : FieldShape FieldDecl}
    (h : shapeOf? r = some shape) :
    match shape with
    | .scalar kind _ => kind.IsRead
    | .list element => ∃ r' : Record, r'.size < r.size ∧ elementOf? r' = some element
    | .nested fields | .embedded _ fields =>
      ∃ items, Tree.sizeItems items < r.size ∧ allOf? .typed items = some fields
    | .reference _ _ => True := by
  rw [shapeOf?] at h
  simp only [Option.bind_eq_bind, Option.bind_eq_some_iff] at h
  obtain ⟨⟨kind, rest, hrest⟩, -, h⟩ := h
  dsimp only at h
  -- the kinds in the order in which the reader tries them, each only if no part is given twice
  split at h
  · split at h
    · simp only [Option.bind_eq_some_iff] at h
      obtain ⟨kind, hkind, values, -, hshape⟩ := h
      cases hshape
      exact isRead_of_required hkind
    · cases h
  · split at h
    · simp only [Option.bind_eq_some_iff] at h
      obtain ⟨⟨t, ht⟩, -, ⟨r', hr'⟩, -, element, helement, hshape⟩ := h
      cases hshape
      exact ⟨r', Nat.lt_of_lt_of_le hr' (Nat.le_trans ht hrest), helement⟩
    · cases h
  · split at h
    · simp only [Option.bind_eq_some_iff] at h
      obtain ⟨⟨t, ht⟩, -, ⟨items, hitems⟩, -, fields, hfields, hshape⟩ := h
      cases hshape
      exact ⟨items, Nat.lt_of_lt_of_le hitems (Nat.le_trans ht hrest), hfields⟩
    · cases h
  · split at h
    · simp only [Option.bind_eq_some_iff] at h
      obtain ⟨model, -, ⟨t, ht⟩, -, ⟨items, hitems⟩, -, fields, hfields, hshape⟩ := h
      cases hshape
      exact ⟨items, Nat.lt_of_lt_of_le hitems (Nat.le_trans ht hrest), hfields⟩
    · cases h
  · split at h
    · simp only [Option.bind_eq_some_iff] at h
      obtain ⟨target, -, cardinality, -, hshape⟩ := h
      cases hshape
      trivial
    · cases h

/-- What the parts of an element shape are read from. -/
theorem parts_of_elementOf? {r : Record} {element : ElementShape FieldDecl}
    (h : elementOf? r = some element) :
    match element with
    | .scalar kind _ => kind.IsRead
    | .nested fields | .embedded _ fields =>
      ∃ items, Tree.sizeItems items < r.size ∧ allOf? .typed items = some fields := by
  rw [elementOf?] at h
  simp only [Option.bind_eq_bind, Option.bind_eq_some_iff] at h
  obtain ⟨⟨kind, rest, hrest⟩, -, h⟩ := h
  dsimp only at h
  split at h
  · split at h
    · simp only [Option.bind_eq_some_iff] at h
      obtain ⟨kind, hkind, values, -, helement⟩ := h
      cases helement
      exact isRead_of_required hkind
    · cases h
  · split at h
    · simp only [Option.bind_eq_some_iff] at h
      obtain ⟨⟨t, ht⟩, -, ⟨items, hitems⟩, -, fields, hfields, helement⟩ := h
      cases helement
      exact ⟨items, Nat.lt_of_lt_of_le hitems (Nat.le_trans ht hrest), hfields⟩
    · cases h
  · split at h
    · simp only [Option.bind_eq_some_iff] at h
      obtain ⟨model, -, ⟨t, ht⟩, -, ⟨items, hitems⟩, -, fields, hfields, helement⟩ := h
      cases helement
      exact ⟨items, Nat.lt_of_lt_of_le hitems (Nat.le_trans ht hrest), hfields⟩
    · cases h

mutual

/-- The kinds of a field as read are kinds as read. -/
theorem kindsRead_of_ofTree? {reading : Reading} (t : Tree) {field : FieldDecl}
    (h : ofTree? reading t = some field) : KindsRead field := by
  obtain ⟨r, hsize, hshape⟩ := exists_shapeOf?_of_ofTree? h
  obtain ⟨name, shape, nonNull, hidden, description, hooks⟩ := field
  exact shapeKindsRead_of_shapeOf? r hshape
termination_by (t.size, 0)
decreasing_by omega

/-- The kinds of a shape as read are kinds as read. -/
theorem shapeKindsRead_of_shapeOf? (r : Record) {shape : FieldShape FieldDecl}
    (h : shapeOf? r = some shape) : ShapeKindsRead shape := by
  have hparts := parts_of_shapeOf? h
  cases shape with
  | scalar kind values => exact hparts
  | list element =>
    obtain ⟨r', hsize, helement⟩ := hparts
    exact elementKindsRead_of_elementOf? r' helement
  | nested fields =>
    obtain ⟨items, hsize, hfields⟩ := hparts
    exact allKindsRead_of_allOf? items hfields
  | embedded model fields =>
    obtain ⟨items, hsize, hfields⟩ := hparts
    exact allKindsRead_of_allOf? items hfields
  | reference target cardinality => trivial
termination_by (r.size, 1)
decreasing_by all_goals omega

/-- The kinds of an element shape as read are kinds as read. -/
theorem elementKindsRead_of_elementOf? (r : Record) {element : ElementShape FieldDecl}
    (h : elementOf? r = some element) : ElementKindsRead element := by
  have hparts := parts_of_elementOf? h
  cases element with
  | scalar kind values => exact hparts
  | nested fields =>
    obtain ⟨items, hsize, hfields⟩ := hparts
    exact allKindsRead_of_allOf? items hfields
  | embedded model fields =>
    obtain ⟨items, hsize, hfields⟩ := hparts
    exact allKindsRead_of_allOf? items hfields
termination_by (r.size, 1)
decreasing_by all_goals omega

/-- The kinds of fields as read are kinds as read. -/
theorem allKindsRead_of_allOf? {reading : Reading} (items : List Tree) {fields : List FieldDecl}
    (h : allOf? reading items = some fields) : AllKindsRead fields := by
  match items with
  | [] =>
    rw [allOf?] at h
    cases h
    trivial
  | item :: rest =>
    rw [allOf?] at h
    simp only [Option.bind_eq_bind, Option.bind_eq_some_iff] at h
    obtain ⟨field, hfield, others, hothers, hfields⟩ := h
    cases hfields
    exact ⟨kindsRead_of_ofTree? item hfield, allKindsRead_of_allOf? rest hothers⟩
termination_by (Tree.sizeItems items, 1)
decreasing_by
  all_goals (simp only [Tree.sizeItems]; have := Tree.size_pos item; omega)

end

end FieldDecl

end ModelGraph
