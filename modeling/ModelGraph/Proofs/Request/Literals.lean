import ModelGraph.Proofs.OrderedMap
import ModelGraph.Request.Value

/-!
# Literals and their variables

A request that is compiled from its text reads the variables of a literal while it turns the literal
into JSON. A request that is executed has its variables replaced first, and what is left is turned
into JSON afterwards. Both orders give the same JSON.

## Main definitions

- `Variables.orNull` — what a variable stands for
- `ArgValue.bound` — a literal in which every variable is replaced by what it stands for

## Main statements

- `ArgValue.substitute_eq_bound` — replacing variables one by one gives the bound literal
- `ArgValue.toJson_eq_toJson_bound` — a literal as JSON is the bound literal as JSON
- `ArgValue.toJson_commutes` — reading a literal commutes with replacing its variables
-/

namespace ModelGraph

/-- What a variable stands for: its binding, or null without one. -/
def Variables.orNull (bindings : Variables) (name : String) : ConstValue :=
  (bindings.get? name).getD .null

namespace ArgValue

variable (bindings : Variables)

mutual

/-- The literal with every variable replaced by what it stands for, at every depth. -/
def bound : ArgValue → ConstValue
  | .null => .null
  | .number value => .number value
  | .string value => .string value
  | .bool value => .bool value
  | .enum item => .enum item
  | .binary bytes => .binary bytes
  | .list items => .list (boundItems items)
  | .object fields => .object (boundFields fields)
  | .variable name => Variables.orNull bindings name

/-- Items with every variable replaced. -/
def boundItems : List ArgValue → List ConstValue
  | [] => []
  | item :: rest => bound item :: boundItems rest

/-- Fields with every variable replaced. The names stay. -/
def boundFields : List (String × ArgValue) → List (String × ConstValue)
  | [] => []
  | (name, value) :: rest => (name, bound value) :: boundFields rest

end

variable {bindings}

mutual

/-- A literal as JSON is the bound literal as JSON. -/
theorem toJson_eq_toJson_bound : (value : ArgValue) →
    value.toJson bindings = (value.bound bindings).toJson
  | .null | .number _ | .string _ | .bool _ | .enum _ | .binary _ => by
    rw [toJson, bound, ConstValue.toJson]
  | .list items => by
    rw [toJson, bound, ConstValue.toJson, itemsToJson_eq_boundItems items]
  | .object fields => by
    rw [toJson, bound, ConstValue.toJson, fieldsToJson_eq_boundFields fields]
  | .variable name => by
    rw [toJson, bound, Variables.orNull]
    cases bindings.get? name with
    | some value => rfl
    | none => rw [Option.getD_none, ConstValue.toJson]

theorem itemsToJson_eq_boundItems : (items : List ArgValue) →
    itemsToJson bindings items = ConstValue.itemsToJson (boundItems bindings items)
  | [] => by rw [itemsToJson, boundItems, ConstValue.itemsToJson]
  | item :: rest => by
    rw [itemsToJson, boundItems, ConstValue.itemsToJson, toJson_eq_toJson_bound item,
      itemsToJson_eq_boundItems rest]

theorem fieldsToJson_eq_boundFields : (fields : List (String × ArgValue)) →
    fieldsToJson bindings fields = ConstValue.fieldsToJson (boundFields bindings fields)
  | [] => by rw [fieldsToJson, boundFields, ConstValue.fieldsToJson]
  | (name, value) :: rest => by
    rw [fieldsToJson, boundFields, ConstValue.fieldsToJson, toJson_eq_toJson_bound value,
      fieldsToJson_eq_boundFields rest]

end

section Substitute

variable {lookup : String → Option ConstValue}

mutual

/-- Replacing the variables of a literal one by one succeeds where each has what it stands for, and
gives the bound literal. -/
theorem substitute_eq_bound : (value : ArgValue) →
    (∀ name ∈ value.variableNames, lookup name = some (Variables.orNull bindings name)) →
    value.substitute lookup = .ok (value.bound bindings)
  | .null, _ | .number _, _ | .string _, _ | .bool _, _ | .enum _, _ | .binary _, _ => by
    rw [substitute, bound]
  | .list items, h => by
    rw [variableNames] at h
    rw [substitute, bound, substituteItems_eq_bound items h]
    rfl
  | .object fields, h => by
    rw [variableNames] at h
    rw [substitute, bound, substituteFields_eq_bound fields h]
    rfl
  | .variable name, h => by
    rw [substitute, bound, h name (by rw [variableNames]; exact List.mem_singleton_self name)]

theorem substituteItems_eq_bound : (items : List ArgValue) →
    (∀ name ∈ itemVariables items, lookup name = some (Variables.orNull bindings name)) →
    substituteItems lookup items = .ok (boundItems bindings items)
  | [], _ => by rw [substituteItems, boundItems]
  | item :: rest, h => by
    rw [itemVariables, List.forall_mem_append] at h
    rw [substituteItems, boundItems, substitute_eq_bound item h.1,
      substituteItems_eq_bound rest h.2]
    rfl

theorem substituteFields_eq_bound : (fields : List (String × ArgValue)) →
    (∀ name ∈ fieldVariables fields, lookup name = some (Variables.orNull bindings name)) →
    substituteFields lookup fields = .ok (boundFields bindings fields)
  | [], _ => by rw [substituteFields, boundFields]
  | (name, value) :: rest, h => by
    rw [fieldVariables, List.forall_mem_append] at h
    rw [substituteFields, boundFields, substitute_eq_bound value h.1,
      substituteFields_eq_bound rest h.2]
    rfl

end

end Substitute

mutual

/-- A literal without variables is what it was. -/
theorem bound_toArg : (const : ConstValue) → const.toArg.bound bindings = const
  | .null | .number _ | .string _ | .bool _ | .enum _ | .binary _ => by
    rw [ConstValue.toArg, bound]
  | .list items => by rw [ConstValue.toArg, bound, boundItems_toArg items]
  | .object fields => by rw [ConstValue.toArg, bound, boundFields_toArg fields]

theorem boundItems_toArg : (items : List ConstValue) →
    boundItems bindings (ConstValue.itemsToArg items) = items
  | [] => by rw [ConstValue.itemsToArg, boundItems]
  | item :: rest => by
    rw [ConstValue.itemsToArg, boundItems, bound_toArg item, boundItems_toArg rest]

theorem boundFields_toArg : (fields : List (String × ConstValue)) →
    boundFields bindings (ConstValue.fieldsToArg fields) = fields
  | [] => by rw [ConstValue.fieldsToArg, boundFields]
  | (name, value) :: rest => by
    rw [ConstValue.fieldsToArg, boundFields, bound_toArg value, boundFields_toArg rest]

end

/-- The members of an object have the names of its fields, in the same order. -/
theorem keys_fieldsToJson (fields : List (String × ArgValue)) :
    Assoc.keys (fieldsToJson bindings fields) = Assoc.keys fields := by
  induction fields with
  | nil => rw [fieldsToJson]; rfl
  | cons field rest ih => rw [fieldsToJson]; exact congrArg (field.1 :: ·) ih

/-- For every literal and all bindings, replacing each variable by its binding, or by null without
one, succeeds and gives the bound literal. The literal read with the bindings is the bound literal as
JSON; of an object the members keep their names and their order; and constants are not changed. -/
theorem toJson_commutes (value : ArgValue) (bindings : Variables) :
    value.substitute (fun name => some (Variables.orNull bindings name)) =
        .ok (value.bound bindings) ∧
      value.toJson bindings = (value.bound bindings).toJson ∧
      (∀ fields, value = .object fields → ∃ members, value.toJson bindings = .object members ∧
        Assoc.keys members = Assoc.keys fields) ∧
      ∀ const : ConstValue, value = const.toArg → value.bound bindings = const := by
  refine ⟨substitute_eq_bound value fun _ _ => rfl, toJson_eq_toJson_bound value, ?_, ?_⟩
  · rintro fields rfl
    exact ⟨fieldsToJson bindings fields, by rw [toJson], keys_fieldsToJson fields⟩
  · rintro const rfl
    exact bound_toArg const

end ArgValue

end ModelGraph
