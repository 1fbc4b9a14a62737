import ModelGraph.Proofs.Graph.Mirror

/-!
# The search for mirrors without a list of what is left

The search for a mirror gets to see the objects that are not announced yet, which is what makes it
end. It does not need them: a search that looks into all objects takes the same steps, since an
object that is announced already has its mirror. How deep the calls of that search nest is bounded
by the size of the objects, whatever mirrors there are and however the objects contain each other.

## Main definitions

- `Mirrors.mirrorWithin` — the search that looks into all objects, for calls nested to a bound
- `Arguments.deriveWithin` — the arguments of a field type by that search

## Main statements

- `Mirrors.mirrorWithin_eq` — within the bound, the search ends with the same mirrors
- `Arguments.deriveWithin_eq` — so do arguments, at a bound that only depends on the objects
-/

namespace ModelGraph

namespace Mirrors

mutual

/-- The name of the mirror of an object type, built on first use, by a search that looks into all
objects. There is no result when calls nest deeper than the bound. -/
def mirrorWithin (objects : OrderedMap String ObjectType) :
    Nat → String → StateT Mirrors Option (Option String)
  | 0, _ => failure
  | bound + 1, object => do
    let name := Naming.inputType object
    if (← get).contains name then
      pure (some name)
    else
      match objects.get? object with
      | none => pure none
      | some source =>
        modify fun mirrors => mirrors.insert name ⟨name, ∅⟩
        let fields ← mirrorFieldsWithin objects bound source.fields.values ∅
        if fields.isEmpty then
          modify fun mirrors => mirrors.erase name
          pure none
        else
          modify fun mirrors => mirrors.insert name ⟨name, fields⟩
          pure (some name)

/-- The mirrors of an object's fields, added to those of the fields before. -/
def mirrorFieldsWithin (objects : OrderedMap String ObjectType) :
    Nat → List OutputField → OrderedMap String ArgType →
      StateT Mirrors Option (OrderedMap String ArgType)
  | 0, _, _ => failure
  | _ + 1, [], mirrored => pure mirrored
  | bound + 1, field :: rest, mirrored => do
    match ← inputTypeWithin objects bound field.type with
    | some type => mirrorFieldsWithin objects bound rest (mirrored.insert field.name type)
    | none => mirrorFieldsWithin objects bound rest mirrored

/-- The input type that matches values of a field type. -/
def inputTypeWithin (objects : OrderedMap String ObjectType) :
    Nat → FieldType → StateT Mirrors Option (Option ArgType)
  | 0, _ => failure
  | bound + 1, .nonNull inner => inputTypeWithin objects bound inner
  | bound + 1, .list element => do
    let inner ← inputTypeWithin objects bound element
    pure (inner.map .list)
  | _ + 1, .scalar kind => pure (some (.named kind.name))
  | _ + 1, .enum name => pure (some (.named name))
  | bound + 1, .object name => do
    match ← mirrorWithin objects bound name with
    | some mirror => pure (some (.named mirror))
    | none => pure (if objects.contains name then none else some (.named OutputScalar.id.name))
  | _ + 1, .unresolved slot =>
    pure <| some <|
      match slot.cardinality with
      | .single => .named OutputScalar.id.name
      | .plural => .listOf OutputScalar.id.name
  | _ + 1, .connection _ => pure none

end

/-- Whether every object without a mirror is still available. -/
def Leaves (objects available : OrderedMap String ObjectType) (mirrors : Mirrors) : Prop :=
  ∀ object, Naming.inputType object ∉ mirrors.keys → available.get? object = objects.get? object

section Leaves

variable {objects available : OrderedMap String ObjectType} {mirrors after : Mirrors}

theorem Leaves.mono (h : Leaves objects available mirrors)
    (hstay : ∀ name ∈ mirrors.keys, name ∈ after.keys) : Leaves objects available after :=
  fun object hobject => h object fun hmem => hobject (hstay _ hmem)

/-- An object that is announced need not be available any more. -/
theorem Leaves.announce (h : Leaves objects available mirrors) (object : String)
    (mirror : InputType) :
    Leaves objects (available.erase object) (mirrors.insert (Naming.inputType object) mirror) := by
  intro other hother
  rw [OrderedMap.mem_keys_insert, not_or] at hother
  rw [OrderedMap.get?_erase, if_neg fun heq => hother.1 (by rw [heq])]
  exact h other hother.2

end Leaves

/-- The vocabulary of all names. -/
def everyName : Vocabulary := ⟨fun _ => True, fun _ => True, fun _ => True⟩

theorem uses_everyName (type : FieldType) : type.Uses everyName := by
  rw [FieldType.Uses]
  split <;> trivial

theorem speaks_everyName (objects : OrderedMap String ObjectType) :
    Speaks everyName objects :=
  fun _ _ _ field _ => uses_everyName field.type

section Within

variable (objects : OrderedMap String ObjectType)

theorem stay_inputType (available : OrderedMap String ObjectType) (type : FieldType)
    (mirrors : Mirrors) :
    ∀ name ∈ mirrors.keys, name ∈ ((inputType objects available type).run mirrors).2.keys :=
  (inputType_spec objects available (speaks_everyName available) type (uses_everyName type)
    mirrors).1.stay

mutual

/-- Within the bound, the search ends with the mirrors of the search that knows what is left. -/
theorem mirrorWithin_eq {bound : Nat} {available : OrderedMap String ObjectType}
    {mirrors : Mirrors} (object : String) (hbound : allSteps available < bound)
    (hleaves : Leaves objects available mirrors) :
    (mirrorWithin objects bound object).run mirrors =
      some ((mirror objects available object).run mirrors) := by
  obtain _ | bound := bound
  · omega
  rw [run_mirror, mirrorWithin]
  change (if mirrors.contains (Naming.inputType object) then _ else _ :
    StateT Mirrors Option _).run mirrors = _
  by_cases hcontains : mirrors.contains (Naming.inputType object)
  · rw [if_pos hcontains, if_pos hcontains]
    rfl
  · have hget : available.get? object = objects.get? object :=
      hleaves object fun hmem => hcontains (OrderedMap.contains_iff.2 hmem)
    rw [if_neg hcontains, if_neg hcontains, hget]
    cases hsource : objects.get? object with
    | none => rfl
    | some source =>
      have hless := allSteps_erase_le (hget.trans hsource)
      have hfields := mirrorFieldsWithin_eq source.fields.values ∅
        (show allSteps (available.erase object) + steps source.fields.values < bound by omega)
        (hleaves.announce object ⟨Naming.inputType object, ∅⟩)
      change ((mirrorFieldsWithin objects bound source.fields.values ∅).run
        (mirrors.insert (Naming.inputType object) ⟨Naming.inputType object, ∅⟩) >>= _) = _
      rw [hfields]
      dsimp only [Option.bind_eq_bind, Option.bind_some]
      split <;> rfl
-- As for the search itself, the objects left and the steps that remain get fewer.
termination_by allSteps available
decreasing_by omega

theorem mirrorFieldsWithin_eq {bound : Nat} {available : OrderedMap String ObjectType}
    {mirrors : Mirrors} (fields : List OutputField) (mirrored : OrderedMap String ArgType)
    (hbound : allSteps available + steps fields < bound)
    (hleaves : Leaves objects available mirrors) :
    (mirrorFieldsWithin objects bound fields mirrored).run mirrors =
      some ((mirrorFields objects available fields mirrored).run mirrors) := by
  obtain _ | bound := bound
  · omega
  cases fields with
  | nil => rw [mirrorFieldsWithin, mirrorFields]; rfl
  | cons field rest =>
    rw [steps] at hbound
    have hfirst := inputTypeWithin_eq field.type
      (show allSteps available + depth field.type < bound by omega) hleaves
    have hrest := fun mirrored => mirrorFieldsWithin_eq rest mirrored
      (show allSteps available + steps rest < bound by omega)
      (hleaves.mono (stay_inputType objects available field.type mirrors))
    rw [run_mirrorFields_cons, mirrorFieldsWithin, StateT.run_bind, hfirst]
    cases htype : ((inputType objects available field.type).run mirrors).1 <;>
      simp [htype, hrest]
termination_by allSteps available + steps fields
decreasing_by all_goals (subst_vars; simp only [steps]; omega)

theorem inputTypeWithin_eq {bound : Nat} {available : OrderedMap String ObjectType}
    {mirrors : Mirrors} (type : FieldType) (hbound : allSteps available + depth type < bound)
    (hleaves : Leaves objects available mirrors) :
    (inputTypeWithin objects bound type).run mirrors =
      some ((inputType objects available type).run mirrors) := by
  obtain _ | bound := bound
  · omega
  cases type with
  | nonNull inner =>
    rw [depth] at hbound
    rw [inputTypeWithin, inputType]
    exact inputTypeWithin_eq inner (by omega) hleaves
  | list element =>
    rw [depth] at hbound
    have hinner := inputTypeWithin_eq element (show _ < bound by omega) hleaves
    rw [run_inputType_list, inputTypeWithin, StateT.run_bind, hinner]
    rfl
  | object name =>
    change _ + 1 < _ at hbound
    have hmirror := mirrorWithin_eq name (show _ < bound by omega) hleaves
    simp only [run_inputType_object, inputTypeWithin, StateT.run_bind, hmirror]
    cases hname : ((mirror objects available name).run mirrors).1 <;> simp [hname]
  | scalar _ | enum _ | unresolved _ | connection _ =>
    rw [inputTypeWithin, inputType]
    rfl
termination_by allSteps available + depth type
decreasing_by all_goals (subst_vars; simp only [depth]; omega)

end

end Within

end Mirrors

namespace Arguments

/-- The arguments of a field of the given type, by the search that looks into all objects. -/
def deriveWithin (objects : OrderedMap String ObjectType) (bound : Nat) (type : FieldType) :
    StateT Mirrors Option (List Argument) :=
  match type.nullable with
  | .scalar kind => pure (comparison kind.name)
  | .enum name => pure (comparison name)
  | .list element =>
    match element.nullable with
    | .scalar kind => pure (comparison kind.name)
    | .enum name => pure (comparison name)
    | .object name => do
      let mirror ← Mirrors.mirrorWithin objects bound name
      pure (array mirror)
    | _ => pure []
  | _ => pure []

section Within

variable {objects : OrderedMap String ObjectType} {bound : Nat}

/-- Arguments come out the same, at a bound that only depends on the objects. -/
theorem deriveWithin_eq (hbound : Mirrors.allSteps objects < bound) (type : FieldType)
    (mirrors : Mirrors) :
    (deriveWithin objects bound type).run mirrors = some ((derive objects type).run mirrors) := by
  rw [deriveWithin, derive]
  cases type.nullable with
  | list element =>
    dsimp only
    cases element.nullable with
    | object name =>
      dsimp only
      rw [StateT.run_bind, Mirrors.mirrorWithin_eq objects name hbound fun _ _ => rfl]
      rfl
    | scalar _ | enum _ | connection _ | list _ | nonNull _ | unresolved _ => rfl
  | scalar _ | enum _ | object _ | connection _ | nonNull _ | unresolved _ => rfl

theorem mapM_deriveWithin_eq (hbound : Mirrors.allSteps objects < bound) (types : List FieldType)
    (mirrors : Mirrors) :
    (types.mapM (deriveWithin objects bound)).run mirrors =
      some ((types.mapM (derive objects)).run mirrors) := by
  induction types generalizing mirrors with
  | nil => rfl
  | cons type rest ih =>
    rw [List.mapM_cons, List.mapM_cons, StateT.run_bind, deriveWithin_eq hbound]
    dsimp only [Option.bind_eq_bind, Option.bind_some]
    rw [StateT.run_bind, ih]
    rfl

end Within

end Arguments

end ModelGraph
