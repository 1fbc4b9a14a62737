import ModelGraph.Json.Basic

/-!
# Argument values

Values as requests write them, with and without variables, and what they are as JSON: an enum item
is a string, bytes are a list of numbers, and a variable is whatever it is bound to.

## Main definitions

- `ConstValue`, `ArgValue` — values without and with variables
- `Variables` — bindings of variables
- `ConstValue.toJson`, `ArgValue.toJson` — values as JSON
- `ArgValue.substitute` — a value with its variables replaced
-/

namespace ModelGraph

/-- A value without variables. -/
inductive ConstValue where
  | null
  | number (value : Number)
  | string (value : String)
  | bool (value : Bool)
  | enum (item : String)
  | binary (bytes : List UInt8)
  | list (items : List ConstValue)
  | object (fields : List (String × ConstValue))
deriving Repr

/-- A value that may hold variables. -/
inductive ArgValue where
  | null
  | number (value : Number)
  | string (value : String)
  | bool (value : Bool)
  | enum (item : String)
  | binary (bytes : List UInt8)
  | list (items : List ArgValue)
  | object (fields : List (String × ArgValue))
  | variable (name : String)
deriving Repr

/-- Bindings of variables, by name. -/
abbrev Variables := OrderedMap String ConstValue

namespace ConstValue

instance : Inhabited ConstValue := ⟨null⟩

mutual

/-- A value as JSON. -/
def toJson : ConstValue → Json
  | .null => .null
  | .number value => .number value
  | .string value => .string value
  | .bool value => .bool value
  | .enum item => .string item
  | .binary bytes => .array (bytes.map fun byte => .ofNat byte.toNat)
  | .list items => .array (itemsToJson items)
  | .object fields => .object (fieldsToJson fields)

/-- Items as JSON. -/
def itemsToJson : List ConstValue → List Json
  | [] => []
  | item :: rest => toJson item :: itemsToJson rest

/-- Fields as JSON members. -/
def fieldsToJson : List (String × ConstValue) → List (String × Json)
  | [] => []
  | (name, value) :: rest => (name, toJson value) :: fieldsToJson rest

end

mutual

/-- A JSON value as a value without variables. -/
def ofJson : Json → ConstValue
  | .null => .null
  | .bool value => .bool value
  | .number value => .number value
  | .string value => .string value
  | .array items => .list (ofJsonItems items)
  | .object members => .object (ofJsonMembers members)

/-- The items of an array as values. -/
def ofJsonItems : List Json → List ConstValue
  | [] => []
  | item :: rest => ofJson item :: ofJsonItems rest

/-- The members of an object as fields. -/
def ofJsonMembers : List (String × Json) → List (String × ConstValue)
  | [] => []
  | (name, value) :: rest => (name, ofJson value) :: ofJsonMembers rest

end

mutual

/-- The same value among those that may hold variables. -/
def toArg : ConstValue → ArgValue
  | .null => .null
  | .number value => .number value
  | .string value => .string value
  | .bool value => .bool value
  | .enum item => .enum item
  | .binary bytes => .binary bytes
  | .list items => .list (itemsToArg items)
  | .object fields => .object (fieldsToArg fields)

/-- Items among those that may hold variables. -/
def itemsToArg : List ConstValue → List ArgValue
  | [] => []
  | item :: rest => toArg item :: itemsToArg rest

/-- Fields among those that may hold variables. -/
def fieldsToArg : List (String × ConstValue) → List (String × ArgValue)
  | [] => []
  | (name, value) :: rest => (name, toArg value) :: fieldsToArg rest

end

end ConstValue

/-- The bindings that a JSON object gives; anything else gives none. -/
def Variables.ofJson (value : Json) : Variables :=
  match value with
  | .object members =>
    .ofList (members.map fun (name, value) => (name, ConstValue.ofJson value))
  | _ => ∅

namespace ArgValue

instance : Inhabited ArgValue := ⟨null⟩

mutual

/-- A value as JSON. A variable without a binding is null. -/
def toJson (bindings : Variables) : ArgValue → Json
  | .null => .null
  | .number value => .number value
  | .string value => .string value
  | .bool value => .bool value
  | .enum item => .string item
  | .binary bytes => .array (bytes.map fun byte => .ofNat byte.toNat)
  | .list items => .array (itemsToJson bindings items)
  | .object fields => .object (fieldsToJson bindings fields)
  | .variable name =>
    match bindings.get? name with
    | some value => value.toJson
    | none => .null

/-- Items as JSON. -/
def itemsToJson (bindings : Variables) : List ArgValue → List Json
  | [] => []
  | item :: rest => toJson bindings item :: itemsToJson bindings rest

/-- Fields as JSON members. -/
def fieldsToJson (bindings : Variables) : List (String × ArgValue) → List (String × Json)
  | [] => []
  | (name, value) :: rest => (name, toJson bindings value) :: fieldsToJson bindings rest

end

mutual

/-- The value with every variable replaced, or the first variable that `lookup` does not know. -/
def substitute (lookup : String → Option ConstValue) : ArgValue → Except String ConstValue
  | .null => .ok .null
  | .number value => .ok (.number value)
  | .string value => .ok (.string value)
  | .bool value => .ok (.bool value)
  | .enum item => .ok (.enum item)
  | .binary bytes => .ok (.binary bytes)
  | .list items => do
    let items ← substituteItems lookup items
    pure (.list items)
  | .object fields => do
    let fields ← substituteFields lookup fields
    pure (.object fields)
  | .variable name =>
    match lookup name with
    | some value => .ok value
    | none => .error name

/-- Items with every variable replaced. -/
def substituteItems (lookup : String → Option ConstValue) :
    List ArgValue → Except String (List ConstValue)
  | [] => .ok []
  | item :: rest => do
    let value ← substitute lookup item
    let values ← substituteItems lookup rest
    pure (value :: values)

/-- Fields with every variable replaced. -/
def substituteFields (lookup : String → Option ConstValue) :
    List (String × ArgValue) → Except String (List (String × ConstValue))
  | [] => .ok []
  | (name, item) :: rest => do
    let value ← substitute lookup item
    let values ← substituteFields lookup rest
    pure ((name, value) :: values)

end

mutual

/-- Whether two values are the same: numbers as numbers of one kind, and objects in any order of
their fields. -/
def same : ArgValue → ArgValue → Bool
  | .null, .null => true
  | .number a, .number b => a.same b
  | .string a, .string b | .enum a, .enum b | .variable a, .variable b => a = b
  | .bool a, .bool b => a == b
  | .binary a, .binary b => a == b
  | .list a, .list b => sameItems a b
  | .object a, .object b => a.length == b.length && sameFields a b
  | _, _ => false

/-- Whether two lists hold the same values. -/
def sameItems : List ArgValue → List ArgValue → Bool
  | [], [] => true
  | a :: as, b :: bs => same a b && sameItems as bs
  | _, _ => false

/-- Whether every field is also a field of `others`, with the same value. -/
def sameFields : List (String × ArgValue) → List (String × ArgValue) → Bool
  | [], _ => true
  | (name, value) :: rest, others =>
    (match others.find? fun other => other.1 = name with
      | some other => same value other.2
      | none => false)
      && sameFields rest others

end

/-- The value when it holds no variable. -/
def const? (value : ArgValue) : Option ConstValue :=
  (value.substitute fun _ => none).toOption

mutual

/-- The variables of a value, in order. -/
def variableNames : ArgValue → List String
  | .list items => itemVariables items
  | .object fields => fieldVariables fields
  | .variable name => [name]
  | _ => []

/-- The variables of items. -/
def itemVariables : List ArgValue → List String
  | [] => []
  | item :: rest => variableNames item ++ itemVariables rest

/-- The variables of fields. -/
def fieldVariables : List (String × ArgValue) → List String
  | [] => []
  | (_, value) :: rest => variableNames value ++ fieldVariables rest

end

end ArgValue

end ModelGraph
