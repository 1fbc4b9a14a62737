import Mathlib.Data.List.Sublists
import ModelGraph.Proofs.Graph.Join

/-!
# Modular models

Models are modular when it does not matter which of them are laid out together. Every part of them
fits: it gives its models the roots and the types that they have on their own, and what it makes
besides is in nobody's way. And when nothing that the models reach is mentioned in vain, every part
can be built.

A part of some models is what a run builds when the types of the other ones are still cached, so this
is about runs without any caches. Whether it holds can be computed.

## Main definitions

- `OutputField.Passes` — a field that mentions nothing in vain
- `Run.ReachedBy`, `Run.Below` — what a model reaches on its own
- `Run.Shows` — a model of which everything passes
- `Run.Fits` — a part of some models whose models come out as they do alone
- `Run.Resolves`, `Run.Completes` — a part of some models that can be resolved, or built
- `Run.Modular` — models of which every part fits, and can be built when all passes

## Main statements

- `OutputField.Passes.imp` — a field that passes does so among more types
- `Run.reaches_iff_reachedBy` — a root reaches the same names where these stand for the same
- `Run.mem_reached_iff`, `Run.mem_objectsBelow_iff` — what a model reaches is found by a search
-/

namespace ModelGraph

/-! ### Fields that pass -/

/-- The names that a type mentions. -/
def FieldType.mentions (type : FieldType) : List String :=
  match type.innermost with
  | .enum name | .object name | .connection name => [name]
  | _ => []

/-- Whether a type is that of known values, given which names are those of models and what the other
names stand for. -/
def FieldType.Known (isModel : String → Prop) (find : String → Option NamedType) : FieldType → Prop
  | .scalar _ => True
  | .enum name => ∃ type, find name = some (.enum type)
  | .object name => isModel name ∨ ∃ type, find name = some (.object type)
  | .connection name => ∃ type, find name = some (.connection type) ∧ isModel type.node
  | .list element => Known isModel find element
  | .nonNull inner => Known isModel find inner
  | .unresolved _ => False

/-- Whether the type of an argument is that of known values. -/
def ArgType.Known (find : String → Option NamedType) (type : ArgType) : Prop :=
  Arguments.isBuiltIn type.innermost = true ∨ (∃ enum, find type.innermost = some (.enum enum)) ∨
    ∃ input, find type.innermost = some (.input input)

/-- Whether a field is no slot and mentions nothing in vain. -/
structure OutputField.Passes (isModel : String → Prop) (find : String → Option NamedType)
    (field : OutputField) : Prop where
  type : field.type.Known isModel find
  args : ∀ arg ∈ field.args, arg.type.Known find

section Passes

variable {isModel isModel' : String → Prop} {find find' : String → Option NamedType}

theorem FieldType.known_innermost_iff {type : FieldType} :
    type.innermost.Known isModel find ↔ type.Known isModel find := by
  induction type with
  | scalar _ | enum _ | object _ | connection _ | unresolved _ => exact Iff.rfl
  | list element ih => exact ih
  | nonNull inner ih => exact ih

theorem FieldType.Known.imp {type : FieldType} (h : type.Known isModel find)
    (hmodel : ∀ name, isModel name → isModel' name)
    (hfind : ∀ name ∈ type.mentions, ∀ found, find name = some found → find' name = some found) :
    type.Known isModel' find' := by
  induction type with
  | scalar kind => trivial
  | unresolved slot => exact h.elim
  | list element ih => exact ih h hfind
  | nonNull inner ih => exact ih h hfind
  | enum name =>
    obtain ⟨enum, hget⟩ := h
    exact ⟨enum, hfind name (List.mem_singleton_self name) _ hget⟩
  | object name =>
    refine Or.imp (hmodel name) ?_ h
    rintro ⟨object, hget⟩
    exact ⟨object, hfind name (List.mem_singleton_self name) _ hget⟩
  | connection name =>
    obtain ⟨connection, hget, hnode⟩ := h
    exact ⟨connection, hfind name (List.mem_singleton_self name) _ hget, hmodel _ hnode⟩

/-- A field that passes does so among more models and types. -/
theorem OutputField.Passes.imp {field : OutputField} (h : field.Passes isModel find)
    (hmodel : ∀ name, isModel name → isModel' name)
    (hfind : ∀ name ∈ field.mentions, ∀ type, find name = some type → find' name = some type) :
    field.Passes isModel' find' where
  type := h.type.imp hmodel fun name hname => hfind name (List.mem_append_left _ hname)
  args arg harg := by
    have hsame := hfind _ (List.mem_append_right _ (List.mem_map_of_mem harg))
    rcases h.args arg harg with hbuiltIn | ⟨enum, hget⟩ | ⟨input, hget⟩
    · exact .inl hbuiltIn
    · exact .inr (.inl ⟨enum, hsame _ hget⟩)
    · exact .inr (.inr ⟨input, hsame _ hget⟩)

end Passes

/-! Whether a field passes can be computed. -/

section Decidable

variable (found : Option NamedType)

instance : Decidable (∃ type, found = some (.enum type)) :=
  match found with
  | some (.enum type) => .isTrue ⟨type, rfl⟩
  | none | some (.object _) | some (.input _) | some (.connection _) => .isFalse nofun

instance : Decidable (∃ type, found = some (.object type)) :=
  match found with
  | some (.object type) => .isTrue ⟨type, rfl⟩
  | none | some (.enum _) | some (.input _) | some (.connection _) => .isFalse nofun

instance : Decidable (∃ type, found = some (.input type)) :=
  match found with
  | some (.input type) => .isTrue ⟨type, rfl⟩
  | none | some (.enum _) | some (.object _) | some (.connection _) => .isFalse nofun

instance (P : String → Prop) [DecidablePred P] :
    Decidable (∃ type, found = some (.connection type) ∧ P type.node) :=
  match found with
  | some (.connection type) => decidable_of_iff (P type.node) (by simp)
  | none | some (.enum _) | some (.object _) | some (.input _) => .isFalse nofun

variable (isModel : String → Prop) [DecidablePred isModel] (find : String → Option NamedType)

instance FieldType.decidableKnown : (type : FieldType) → Decidable (type.Known isModel find)
  | .scalar _ => inferInstanceAs (Decidable True)
  | .enum name => inferInstanceAs (Decidable (∃ type, find name = some (.enum type)))
  | .object name =>
    inferInstanceAs (Decidable (isModel name ∨ ∃ type, find name = some (.object type)))
  | .connection name =>
    inferInstanceAs (Decidable (∃ type, find name = some (.connection type) ∧ isModel type.node))
  | .list element => decidableKnown element
  | .nonNull inner => decidableKnown inner
  | .unresolved _ => inferInstanceAs (Decidable False)

instance (type : ArgType) : Decidable (type.Known find) :=
  inferInstanceAs (Decidable (_ ∨ _ ∨ _))

instance (field : OutputField) : Decidable (field.Passes isModel find) :=
  decidable_of_iff (field.type.Known isModel find ∧ ∀ arg ∈ field.args, arg.type.Known find)
    ⟨fun h => ⟨h.1, h.2⟩, fun h => ⟨h.type, h.args⟩⟩

end Decidable

/-! ### Models on their own and in parts -/

namespace Run

variable (run : Run)

/-- Whether a model reaches a name on its own. -/
def ReachedBy (model : ModelDecl) (name : String) : Prop :=
  ∃ root, (run.alone model).roots.get? model.rootName = some root ∧
    Reaches (run.alone model).namedTypes.get? root.mentions name

/-- Whether an object type is the root of a model on its own, or one that this root reaches. -/
def Below (model : ModelDecl) (type : ObjectType) : Prop :=
  (run.alone model).roots.get? model.rootName = some type ∨
    ∃ name, run.ReachedBy model name ∧
      (run.alone model).namedTypes.get? name = some (.object type)

/-- Whether all targets of a model are among given ones. -/
def Listed (models : List ModelDecl) (model : ModelDecl) : Prop :=
  ∀ slot ∈ (model.kept run.settings).slots, slot.target ∈ models.map ModelDecl.name

/-- Whether a name is the output name of a model. -/
def IsRootName (models : List ModelDecl) (name : String) : Prop :=
  name ∈ models.map ModelDecl.rootName

/-- Whether all that a model reaches on its own passes among models. -/
def Shows (models : List ModelDecl) (model : ModelDecl) : Prop :=
  ∀ type, run.Below model type → ∀ field ∈ type.fields.values,
    field.Passes (IsRootName models) (run.alone model).namedTypes.get?

/-- Whether a part of some models can be resolved: its targets are among the models, and no slot is
left. -/
structure Resolves (models part : List ModelDecl) : Prop where
  targets : ∀ slot ∈ (run.layOut part).pending, slot.target ∈ models.map ModelDecl.name
  resolved : (run.layOut part).settled.checkResolved = .ok ()

/-- Whether a part of some models can be built: it can be resolved, and what it has below its roots
passes. -/
structure Completes (models part : List ModelDecl) : Prop extends Resolves run models part where
  passes : ∀ type, .object type ∈ (run.layOut part).settled.namedTypes.values →
    ∀ field ∈ type.fields.values,
      field.Passes (IsRootName models) (run.layOut part).settled.namedTypes.get?

/-- Whether a part of some models fits: its models have the roots and the types that they have on
their own, and beside what the part makes no name that one of the models reaches gets another
meaning. -/
structure Fits (models part : List ModelDecl) : Prop where
  root : ∀ model ∈ part,
    (run.layOut part).settled.roots.get? model.rootName =
      (run.alone model).roots.get? model.rootName
  own : ∀ model ∈ part, ∀ name, run.ReachedBy model name →
    (run.layOut part).settled.namedTypes.get? name = (run.alone model).namedTypes.get? name
  other : ∀ model ∈ models, ∀ name, run.ReachedBy model name →
    ∀ type, (run.layOut part).settled.namedTypes.get? name = some type →
      (run.alone model).namedTypes.get? name = some type

/-- Models for which it does not matter which of them are built together: every part fits, and when
all that they reach passes, every part can be built. -/
structure Modular (models : List ModelDecl) : Prop where
  fits : ∀ part, part.Sublist models → run.Fits models part
  completes : (∀ model ∈ models, run.Shows models model) →
    ∀ part, part.Sublist models → run.Completes models part

variable {run : Run} {model : ModelDecl}

theorem mentions_below {type : ObjectType} (h : run.Below model type) {field : OutputField}
    (hfield : field ∈ type.fields.values) {name : String} (hname : name ∈ field.mentions) :
    run.ReachedBy model name := by
  have hmentions : name ∈ type.mentions := List.mem_flatMap.2 ⟨field, hfield, hname⟩
  rcases h with hroot | ⟨object, ⟨root, hroot, hreach⟩, hget⟩
  · exact ⟨type, hroot, .start hmentions⟩
  · exact ⟨root, hroot, .step hreach hget hmentions⟩

/-- A root reaches the same names where these stand for the same. -/
theorem reaches_iff_reachedBy {find : String → Option NamedType}
    (hfind : ∀ name, run.ReachedBy model name →
      find name = (run.alone model).namedTypes.get? name)
    {root : ObjectType} (hroot : (run.alone model).roots.get? model.rootName = some root)
    {name : String} : Reaches find root.mentions name ↔ run.ReachedBy model name := by
  constructor
  · intro hreach
    induction hreach with
    | start hmem => exact ⟨root, hroot, .start hmem⟩
    | step _ hget hnext ih =>
      rw [hfind _ ih] at hget
      obtain ⟨other, hother, hreach⟩ := ih
      exact ⟨other, hother, .step hreach hget hnext⟩
  · rintro ⟨other, hother, hreach⟩
    obtain rfl : root = other := Option.some.inj (hroot.symm.trans hother)
    induction hreach with
    | start hmem => exact .start hmem
    | step hreach hget hnext ih =>
      rw [← hfind _ ⟨root, hroot, hreach⟩] at hget
      exact .step ih hget hnext

/-! ### Searching -/

variable (run)

theorem typeOf?_share (place : String → Place) (map : OrderedMap String NamedType) :
    typeOf? (run.share place map) = map.get? := by
  funext name
  rw [typeOf?, get?_share, Option.map_map]
  exact Option.map_id'

/-- The root of a model on its own, with the types that are found from it. -/
def found (model : ModelDecl) : Option (ObjectType × List NamedType) :=
  ((run.alone model).roots.get? model.rootName).map fun root =>
    (root, (dependentsOf root (run.share .type (run.alone model).namedTypes)).map Shared.value)

/-- The names that a model reaches on its own. -/
def reached (model : ModelDecl) : List String :=
  (run.found model).elim [] fun (root, types) => root.mentions ++ types.flatMap NamedType.mentions

/-- The root of a model on its own, and the object types below it. -/
def objectsBelow (model : ModelDecl) : List ObjectType :=
  (run.found model).elim [] fun (root, types) => root :: types.filterMap NamedType.object?

variable {run}

/-- The types that are found from a root are those that it reaches. -/
theorem exists_found (model : ModelDecl) : ∃ root types, run.found model = some (root, types) ∧
    (run.alone model).roots.get? model.rootName = some root ∧ ∀ type, type ∈ types ↔
      ∃ name, run.ReachedBy model name ∧ (run.alone model).namedTypes.get? name = some type := by
  obtain ⟨root, hroot, -⟩ := run.exists_root model
  refine ⟨root, _, by rw [found, hroot, Option.map_some], hroot, fun type => ?_⟩
  simp only [List.mem_map, mem_dependentsOf_iff, typeOf?_share, get?_share, Option.map_eq_some_iff]
  constructor
  · rintro ⟨shared, ⟨name, hreach, value, hget, rfl⟩, rfl⟩
    exact ⟨name, ⟨root, hroot, hreach⟩, hget⟩
  · rintro ⟨name, ⟨other, hother, hreach⟩, hget⟩
    obtain rfl : root = other := Option.some.inj (hroot.symm.trans hother)
    exact ⟨_, ⟨name, hreach, type, hget, rfl⟩, rfl⟩

theorem mem_reached_iff {name : String} : name ∈ run.reached model ↔ run.ReachedBy model name := by
  obtain ⟨root, types, hfound, hroot, htypes⟩ := run.exists_found model
  rw [reached, hfound, Option.elim_some, List.mem_append, List.mem_flatMap]
  constructor
  · rintro (hmem | ⟨type, hmem, hnext⟩)
    · exact ⟨root, hroot, .start hmem⟩
    · obtain ⟨name, ⟨other, hother, hreach⟩, hget⟩ := (htypes type).1 hmem
      exact ⟨other, hother, .step hreach hget hnext⟩
  · rintro ⟨other, hother, hreach⟩
    obtain rfl : root = other := Option.some.inj (hroot.symm.trans hother)
    cases hreach with
    | start hmem => exact .inl hmem
    | step hreach hget hnext =>
      exact .inr ⟨_, (htypes _).2 ⟨_, ⟨root, hroot, hreach⟩, hget⟩, hnext⟩

theorem mem_objectsBelow_iff {type : ObjectType} :
    type ∈ run.objectsBelow model ↔ run.Below model type := by
  obtain ⟨root, types, hfound, hroot, htypes⟩ := run.exists_found model
  rw [objectsBelow, hfound, Option.elim_some, List.mem_cons, List.mem_filterMap, Below, hroot,
    Option.some.injEq]
  refine or_congr eq_comm ⟨?_, ?_⟩
  · rintro ⟨named, hmem, hobject⟩
    obtain rfl := NamedType.eq_object_of_object? hobject
    exact (htypes _).1 hmem
  · intro hbelow
    exact ⟨_, (htypes _).2 hbelow, rfl⟩

section Decidable

variable (run) (models : List ModelDecl)

instance : DecidablePred (IsRootName models) := fun _ => inferInstanceAs (Decidable (_ ∈ _))

instance (model : ModelDecl) : Decidable (run.Shows models model) :=
  decidable_of_iff (∀ type ∈ run.objectsBelow model, ∀ field ∈ type.fields.values,
      field.Passes (IsRootName models) (run.alone model).namedTypes.get?)
    (forall_congr' fun _ => imp_congr_left mem_objectsBelow_iff)

instance (part : List ModelDecl) : Decidable (run.Resolves models part) :=
  decidable_of_iff
    ((∀ slot ∈ (run.layOut part).pending, slot.target ∈ models.map ModelDecl.name) ∧
      (run.layOut part).settled.checkResolved = .ok ())
    ⟨fun h => ⟨h.1, h.2⟩, fun h => ⟨h.targets, h.resolved⟩⟩

instance (part : List ModelDecl) : Decidable (run.Completes models part) :=
  let arena := (run.layOut part).settled
  decidable_of_iff
    (run.Resolves models part ∧
      ∀ type ∈ arena.namedTypes.values.filterMap NamedType.object?, ∀ field ∈ type.fields.values,
        field.Passes (IsRootName models) arena.namedTypes.get?)
    (by
      have hobject : ∀ type, type ∈ arena.namedTypes.values.filterMap NamedType.object? ↔
          NamedType.object type ∈ arena.namedTypes.values := by
        intro type
        rw [List.mem_filterMap]
        constructor
        · rintro ⟨named, hmem, hobject⟩
          exact NamedType.eq_object_of_object? hobject ▸ hmem
        · exact fun hmem => ⟨_, hmem, rfl⟩
      simp only [hobject]
      exact ⟨fun h => ⟨h.1, h.2⟩, fun h => ⟨h.toResolves, h.passes⟩⟩)

/-- A part fits when that shows in what is found from the roots. -/
theorem fits_iff (part : List ModelDecl) : run.Fits models part ↔
    (∀ model ∈ part, (run.layOut part).settled.roots.get? model.rootName =
      (run.alone model).roots.get? model.rootName) ∧
    (∀ model ∈ part, ∀ name ∈ run.reached model,
      (run.layOut part).settled.namedTypes.get? name =
        (run.alone model).namedTypes.get? name) ∧
    ∀ model ∈ models, ∀ name ∈ run.reached model,
      (run.layOut part).settled.namedTypes.get? name = none ∨
        (run.layOut part).settled.namedTypes.get? name =
          (run.alone model).namedTypes.get? name := by
  have hother : ∀ found known : Option NamedType,
      (∀ type, found = some type → known = some type) ↔ found = none ∨ found = known := by
    intro found known
    cases found with
    | none => simp
    | some type => simp [eq_comm]
  simp only [mem_reached_iff, ← hother]
  exact ⟨fun h => ⟨h.root, h.own, h.other⟩, fun h => ⟨h.1, h.2.1, h.2.2⟩⟩

instance (part : List ModelDecl) : Decidable (run.Fits models part) :=
  decidable_of_iff' _ (run.fits_iff models part)

instance : Decidable (run.Modular models) :=
  decidable_of_iff
    ((∀ part ∈ models.sublists, run.Fits models part) ∧
      ((∀ model ∈ models, run.Shows models model) →
        ∀ part ∈ models.sublists, run.Completes models part))
    (by
      simp only [List.mem_sublists]
      exact ⟨fun h => ⟨h.1, h.2⟩, fun h => ⟨h.fits, h.completes⟩⟩)

end Decidable

end Run

end ModelGraph
