import ModelGraph.Proofs.Graph.Declarations

/-!
# Shapes that enclose others

A shape encloses the shapes that are laid out within it, and itself. It is finished after all of
them, so a field of one of them may have its type before it is finished. That is the only way: a
kept field of values has an object type that is finished before the field is built, or that is built
around it.

## Main definitions

- `KeptShape.Encloses` — whether a shape of some name is laid out within one of another name
- `KeptShape.Once` — whether a name is not that of two shapes
- `KeptShape.Surrounds` — whether a shape encloses another one, and no other ones have their names
- `KeptField.OrderlyAll` — fields whose object types are finished or built around them

## Main statements

- `KeptField.orderlyAll_keepAll` — kept fields are orderly
- `KeptShape.Surrounds.notMem` — what surrounds a shape that is to come is not finished
-/

namespace ModelGraph

/-- The words of types that have no connection, and only object types with a property. -/
def Vocabulary.ofObjects (known : String → Prop) : Vocabulary :=
  ⟨known, fun _ => True, fun _ => False⟩

theorem FieldType.Uses.imp {known larger : String → Prop} {type : FieldType}
    (h : type.Uses (.ofObjects known)) (himp : ∀ name, known name → larger name) :
    type.Uses (.ofObjects larger) :=
  h.mono ⟨himp, fun _ h => h, fun _ h => h⟩

/-! ### Shapes within shapes -/

namespace KeptShape

/-- The names of the shapes that a shape encloses, in the order in which they are finished. -/
def names (shape : KeptShape) : List String :=
  KeptField.objectNamesAll shape.fields ++ [shape.object]

/-- Whether one of some shapes is laid out within another one, or is that one. -/
def Encloses (shapes : List KeptShape) (outer inner : String) : Prop :=
  ∃ shape ∈ shapes, shape.object = outer ∧ inner ∈ shape.names

instance (shapes : List KeptShape) (outer inner : String) :
    Decidable (Encloses shapes outer inner) :=
  inferInstanceAs (Decidable (∃ shape ∈ shapes, shape.object = outer ∧ inner ∈ shape.names))

/-- Whether no two of some shapes have a name. -/
def Once (shapes : List KeptShape) (name : String) : Prop :=
  (shapes.countP fun shape => shape.object = name) ≤ 1

instance (shapes : List KeptShape) (name : String) : Decidable (Once shapes name) :=
  inferInstanceAs (Decidable (_ ≤ 1))

/-- Whether one of some shapes encloses another one, and both are told by their names. -/
structure Surrounds (shapes : List KeptShape) (outer inner : String) : Prop where
  outerOnce : Once shapes outer
  innerOnce : Once shapes inner
  encloses : Encloses shapes outer inner

variable {shapes before rest : List KeptShape}

theorem encloses_of_mem {shape : KeptShape} (hshape : shape ∈ shapes) {inner : String}
    (hinner : inner ∈ shape.names) : Encloses shapes shape.object inner :=
  ⟨shape, hshape, rfl, hinner⟩

/-- A name that no two shapes have is not one of shapes before and of shapes after. -/
theorem Once.notMem {name : String} (h : Once shapes name)
    (hsub : (before ++ rest).Sublist shapes) (hrest : name ∈ rest.map object) :
    name ∉ before.map object := by
  intro hbefore
  have hpositive : ∀ {list : List KeptShape}, name ∈ list.map object →
      0 < list.countP fun shape => shape.object = name := by
    intro list hmem
    obtain ⟨shape, hshape, hname⟩ := List.mem_map.1 hmem
    exact List.countP_pos_iff.2 ⟨shape, hshape, decide_eq_true hname⟩
  have hcount := hsub.countP_le (p := fun shape => shape.object = name)
  have hone : shapes.countP (fun shape => shape.object = name) ≤ 1 := h
  have hfirst := hpositive hbefore
  have hsecond := hpositive hrest
  rw [List.countP_append] at hcount
  omega

/-- A shape is told by its name when no two shapes have it. -/
theorem Once.eq {name : String} (h : Once shapes name) {shape other : KeptShape}
    (hshape : shape ∈ shapes) (hother : other ∈ shapes) (hname : shape.object = name)
    (hname' : other.object = name) : shape = other := by
  have hlength : (shapes.filter fun shape => shape.object = name).length ≤ 1 := by
    rw [← List.countP_eq_length_filter]
    exact h
  have hmem : shape ∈ shapes.filter fun shape => shape.object = name :=
    List.mem_filter.2 ⟨hshape, decide_eq_true hname⟩
  have hmem' : other ∈ shapes.filter fun shape => shape.object = name :=
    List.mem_filter.2 ⟨hother, decide_eq_true hname'⟩
  match hfound : shapes.filter fun shape => shape.object = name with
  | [] =>
    rw [hfound] at hmem
    cases hmem
  | [only] =>
    rw [hfound] at hmem hmem'
    rw [List.mem_singleton.1 hmem, List.mem_singleton.1 hmem']
  | _ :: _ :: _ =>
    rw [hfound] at hlength
    simp at hlength

/-- What surrounds a shape that is to come is not finished. -/
theorem Surrounds.notMem {outer inner : String} (h : Surrounds shapes outer inner)
    (hsub : (before ++ rest).Sublist shapes)
    (hclosed : ∀ shape ∈ before, ∀ name ∈ shape.names, name ∈ before.map object)
    (hrest : inner ∈ rest.map object) : outer ∉ before.map object := by
  intro hbefore
  obtain ⟨shape, hshape, hname⟩ := List.mem_map.1 hbefore
  obtain ⟨other, hother, hname', hwithin⟩ := h.encloses
  have hmem : shape ∈ shapes := hsub.subset (List.mem_append_left _ hshape)
  rw [← h.outerOnce.eq hmem hother hname hname'] at hwithin
  exact h.innerOnce.notMem hsub hrest (hclosed shape hshape inner hwithin)

end KeptShape

namespace KeptField

mutual

theorem names_subset_shapes : (kept : KeptField) → ∀ found ∈ shapes kept,
    found.names ⊆ objectNames kept
  | .value _ _ _, found, h | .reference _ _ _, found, h => by
    rw [shapes] at h
    cases h
  | .shape head inList object embedded fields, found, h => by
    rw [shapes] at h
    rcases List.mem_append.1 h with h | h
    · rw [objectNames]
      exact List.Subset.trans (names_subset_shapesAll fields found h) (List.subset_append_left ..)
    · rw [List.mem_singleton.1 h, objectNames]
      exact List.Subset.refl _

/-- The shapes that fields add enclose only what the fields add. -/
theorem names_subset_shapesAll : (kept : List KeptField) → ∀ found ∈ shapesAll kept,
    found.names ⊆ objectNamesAll kept
  | [], found, h => by
    rw [shapesAll] at h
    cases h
  | kept :: rest, found, h => by
    rw [shapesAll] at h
    rw [objectNamesAll]
    rcases List.mem_append.1 h with h | h
    · exact List.Subset.trans (names_subset_shapes kept found h) (List.subset_append_left ..)
    · exact List.Subset.trans (names_subset_shapesAll rest found h) (List.subset_append_right ..)

end

/-! ### Object types of values -/

mutual

/-- Whether a field of values has an object type only that has been met. A shape has fields, and has
been met by these. -/
def Orderly (met : List String) : KeptField → Prop
  | .value _ type _ => type.Uses (.ofObjects (· ∈ met))
  | .reference _ _ _ => True
  | .shape _ _ object _ fields => fields.isEmpty = false ∧ OrderlyAll (object :: met) fields

/-- Whether fields of values have object types only that have been met. What a field adds has been
met by the next ones. -/
def OrderlyAll (met : List String) : List KeptField → Prop
  | [] => True
  | kept :: rest => Orderly met kept ∧ OrderlyAll (met ++ objectNames kept) rest

end

theorem orderlyAll_append {met : List String} {kept others : List KeptField} :
    OrderlyAll met (kept ++ others) ↔
      OrderlyAll met kept ∧ OrderlyAll (met ++ objectNamesAll kept) others := by
  induction kept generalizing met with
  | nil => simp [OrderlyAll, objectNamesAll]
  | cons first rest ih =>
    rw [List.cons_append, OrderlyAll, OrderlyAll, ih, objectNamesAll, List.append_assoc, and_assoc]

/-- Whether the embedded models met so far have types that have been met, unless they keep no
field. -/
def Covered (met : List String) (seen : Seen) : Prop :=
  ∀ model ∈ seen.embedded, Naming.embeddedType model ∉ seen.hollow →
    Naming.embeddedType model ∈ met

theorem Covered.mono {met larger : List String} {seen : Seen} (h : Covered met seen)
    (hsub : met ⊆ larger) : Covered larger seen :=
  fun model hmodel hfull => hsub (h model hmodel hfull)

/-- An embedded model is announced with its type. -/
theorem Covered.announce {met : List String} {seen : Seen} (h : Covered met seen) (model : String) :
    Covered (Naming.embeddedType model :: met)
      { seen with embedded := model :: seen.embedded } := by
  intro other hother hfull
  rcases List.mem_cons.1 hother with rfl | hother
  · exact List.mem_cons_self ..
  · exact List.mem_cons_of_mem _ (h other hother hfull)

/-- What fields add has been met once they are kept. -/
theorem Covered.keeps {met : List String} {before after : Seen} {kept : List KeptField}
    (h : Covered met before) (hkeeps : Keeps before kept after) :
    Covered (met ++ objectNamesAll kept) after := by
  intro model hmodel hfull
  rcases hkeeps.met model hmodel with hbefore | hhollow | hadded
  · exact List.mem_append_left _ (h model hbefore fun hmem => hfull (hkeeps.hollow _ hmem))
  · exact absurd hhollow hfull
  · exact List.mem_append_right _ hadded.mem_objectNames

section Keep

variable {settings : SynthSettings} {met : List String}

theorem orderly_ofScalar (head : FieldHead) (inList : Bool) (typeName : String) (kind : ScalarKind)
    (values : List String) : Orderly met (ofScalar head inList typeName kind values) := by
  rw [ofScalar]
  split <;> rw [Orderly, FieldType.Uses, FieldType.innermost_listIf] <;> trivial

theorem orderlyAll_singleton {kept : KeptField} (h : Orderly met kept) :
    OrderlyAll met (some kept).toList := by
  rw [Option.toList_some, OrderlyAll, OrderlyAll]
  exact ⟨h, trivial⟩

theorem orderlyAll_ofNested {object : String} {fields : List KeptField}
    (h : OrderlyAll (object :: met) fields) (head : FieldHead) (inList : Bool) :
    OrderlyAll met (ofNested head inList object fields).toList := by
  cases fields with
  | nil =>
    rw [ofNested, Option.toList_none, OrderlyAll]
    trivial
  | cons first rest =>
    refine orderlyAll_singleton ?_
    rw [Orderly]
    exact ⟨rfl, h⟩

theorem orderlyAll_ofEmbedded {object : String} {fields : List KeptField}
    (h : OrderlyAll (object :: met) fields) (head : FieldHead) (inList : Bool) (seen : Seen) :
    OrderlyAll met ((ofEmbedded head inList object fields).run seen).1.toList := by
  cases fields with
  | nil =>
    change OrderlyAll met []
    rw [OrderlyAll]
    trivial
  | cons first rest =>
    change OrderlyAll met (some _).toList
    refine orderlyAll_singleton ?_
    rw [Orderly]
    exact ⟨rfl, h⟩

/-- An embedded shape has a type that has been met, or meets it before its fields do. -/
theorem orderlyAll_embedded {head : FieldHead} {inList : Bool} {model : String}
    {decls : List FieldDecl}
    (h : ∀ met seen, Covered met seen → OrderlyAll met
      ((keepAll settings (Naming.embeddedType model) decls).run seen).1)
    {seen : Seen} (hseen : Covered met seen) :
    OrderlyAll met ((do
        match ← meet model with
        | some known => pure (known.map fun type => value head (.listIf inList type) [])
        | none =>
          let kept ← keepAll settings (Naming.embeddedType model) decls
          ofEmbedded head inList (Naming.embeddedType model) kept : StateM Seen _).run
            seen).1.toList := by
  have hmeet := run_meet model seen
  by_cases hmet : model ∈ seen.embedded
  · rw [if_pos hmet] at hmeet
    rw [run_bind, hmeet]
    by_cases hhollow : Naming.embeddedType model ∈ seen.hollow
    · rw [if_pos hhollow]
      change OrderlyAll met []
      rw [OrderlyAll]
      trivial
    · rw [if_neg hhollow]
      change OrderlyAll met (some _).toList
      refine orderlyAll_singleton ?_
      rw [Orderly, FieldType.Uses, FieldType.innermost_listIf]
      exact hseen model hmet hhollow
  · rw [if_neg hmet] at hmeet
    rw [run_bind, hmeet]
    exact orderlyAll_ofEmbedded (h _ _ (hseen.announce model)) head inList _

mutual

/-- Kept fields of values have object types only that have been met: those of finished shapes, and
those of embedded shapes around them. -/
theorem orderlyAll_keepAll (typeName : String) : (decls : List FieldDecl) →
    (met : List String) → (seen : Seen) → Covered met seen →
      OrderlyAll met ((keepAll settings typeName decls).run seen).1
  | [], met, seen, _ => by
    rw [keepAll]
    change OrderlyAll met []
    rw [OrderlyAll]
    trivial
  | decl :: rest, met, seen, hseen => by
    rw [keepAll, run_bind, run_bind]
    refine orderlyAll_append.2 ⟨orderlyAll_keep typeName decl met seen hseen, ?_⟩
    exact orderlyAll_keepAll typeName rest _ _ (hseen.keeps (keeps_keep typeName decl seen))

theorem orderlyAll_keep (typeName : String) : (decl : FieldDecl) →
    (met : List String) → (seen : Seen) → Covered met seen →
      OrderlyAll met ((keep settings typeName decl).run seen).1.toList
  | ⟨source, content, nonNull, isHidden, description, hooks⟩, met, seen, hseen => by
    rw [keep]
    split
    · change OrderlyAll met []
      rw [OrderlyAll]
      trivial
    · exact orderlyAll_keepShape typeName _ content met seen hseen

theorem orderlyAll_keepShape (typeName : String) (head : FieldHead) :
    (content : FieldShape FieldDecl) → (met : List String) → (seen : Seen) → Covered met seen →
      OrderlyAll met ((keepShape settings typeName head content).run seen).1.toList
  | .scalar kind values, met, seen, _ => by
    rw [keepShape]
    exact orderlyAll_singleton (orderly_ofScalar head false typeName kind values)
  | .list element, met, seen, hseen => by
    rw [keepShape]
    exact orderlyAll_keepElement typeName head element met seen hseen
  | .nested decls, met, seen, hseen => by
    rw [keepShape, run_bind]
    refine orderlyAll_ofNested ?_ head false
    exact orderlyAll_keepAll _ decls _ seen (hseen.mono (List.subset_cons_self ..))
  | .embedded model decls, met, seen, hseen => by
    rw [keepShape]
    exact orderlyAll_embedded (orderlyAll_keepAll _ decls) hseen
  | .reference target cardinality, met, seen, _ => by
    rw [keepShape]
    refine orderlyAll_singleton ?_
    rw [Orderly]
    trivial

theorem orderlyAll_keepElement (typeName : String) (head : FieldHead) :
    (element : ElementShape FieldDecl) → (met : List String) → (seen : Seen) → Covered met seen →
      OrderlyAll met ((keepElement settings typeName head element).run seen).1.toList
  | .scalar kind values, met, seen, _ => by
    rw [keepElement]
    exact orderlyAll_singleton (orderly_ofScalar head true typeName kind values)
  | .nested decls, met, seen, hseen => by
    rw [keepElement, run_bind]
    refine orderlyAll_ofNested ?_ head true
    exact orderlyAll_keepAll _ decls _ seen (hseen.mono (List.subset_cons_self ..))
  | .embedded model decls, met, seen, hseen => by
    rw [keepElement]
    exact orderlyAll_embedded (orderlyAll_keepAll _ decls) hseen

end

end Keep

end KeptField

end ModelGraph
