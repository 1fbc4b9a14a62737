import ModelGraph.OrderedMap
import ModelGraph.Numeral.Number

/-!
# JSON values

JSON values with ordered members. Members of an object are kept in the order in which their names
first arrived; `Json.ofMembers` gives each name its first place and its last value.

## Main definitions

- `Json` — values
- `Json.ofMembers`, `Json.get?` — objects
-/

namespace ModelGraph

/-- A JSON value. -/
inductive Json where
  | null
  | bool (value : Bool)
  | number (value : Number)
  | string (value : String)
  | array (items : List Json)
  | object (members : List (String × Json))
deriving Repr

namespace Json

instance : Inhabited Json := ⟨null⟩

mutual

/-- Equality of values is decidable. -/
def decEq : (a b : Json) → Decidable (a = b)
  | .null, .null => .isTrue rfl
  | .bool a, .bool b =>
    if h : a = b then .isTrue (by rw [h]) else .isFalse (by simpa using h)
  | .number a, .number b =>
    if h : a = b then .isTrue (by rw [h]) else .isFalse (by simpa using h)
  | .string a, .string b =>
    if h : a = b then .isTrue (by rw [h]) else .isFalse (by simpa using h)
  | .array a, .array b =>
    match decEqItems a b with
    | .isTrue h => .isTrue (by rw [h])
    | .isFalse h => .isFalse (by simpa using h)
  | .object a, .object b =>
    match decEqMembers a b with
    | .isTrue h => .isTrue (by rw [h])
    | .isFalse h => .isFalse (by simpa using h)
  | .null, .bool _ | .null, .number _ | .null, .string _ | .null, .array _ | .null, .object _
  | .bool _, .null | .bool _, .number _ | .bool _, .string _ | .bool _, .array _
  | .bool _, .object _ | .number _, .null | .number _, .bool _ | .number _, .string _
  | .number _, .array _ | .number _, .object _ | .string _, .null | .string _, .bool _
  | .string _, .number _ | .string _, .array _ | .string _, .object _ | .array _, .null
  | .array _, .bool _ | .array _, .number _ | .array _, .string _ | .array _, .object _
  | .object _, .null | .object _, .bool _ | .object _, .number _ | .object _, .string _
  | .object _, .array _ => .isFalse (by simp)

/-- Equality of lists of values is decidable. -/
def decEqItems : (a b : List Json) → Decidable (a = b)
  | [], [] => .isTrue rfl
  | [], _ :: _ | _ :: _, [] => .isFalse (by simp)
  | a :: as, b :: bs =>
    match decEq a b with
    | .isFalse h => .isFalse fun h' => h (List.cons.inj h').1
    | .isTrue h =>
      match decEqItems as bs with
      | .isTrue h' => .isTrue (by rw [h, h'])
      | .isFalse h' => .isFalse fun h'' => h' (List.cons.inj h'').2

/-- Equality of lists of members is decidable. -/
def decEqMembers : (a b : List (String × Json)) → Decidable (a = b)
  | [], [] => .isTrue rfl
  | [], _ :: _ | _ :: _, [] => .isFalse (by simp)
  | (k, a) :: as, (l, b) :: bs =>
    if hk : k = l then
      match decEq a b with
      | .isFalse h => .isFalse fun h' => h (Prod.mk.inj (List.cons.inj h').1).2
      | .isTrue h =>
        match decEqMembers as bs with
        | .isTrue h' => .isTrue (by rw [hk, h, h'])
        | .isFalse h' => .isFalse fun h'' => h' (List.cons.inj h'').2
    else .isFalse fun h => hk (Prod.mk.inj (List.cons.inj h).1).1

end

instance : DecidableEq Json := decEq

/-- The object with the given members: each name has its first place and its last value. -/
def ofMembers (members : List (String × Json)) : Json :=
  .object (Assoc.collect members)

/-- A small natural number as a value. -/
def ofNat (n : Nat) : Json := .number (.int n)

/-- A list of texts. -/
def ofTexts (texts : List String) : Json :=
  .array (texts.map .string)

/-- Text, or null where there is none. -/
def ofText? : Option String → Json
  | some text => .string text
  | none => .null

/-- The member of an object under a name. -/
def get? (name : String) : Json → Option Json
  | .object members => Assoc.get? name members
  | _ => none

/-- The text of a string value. -/
def string? : Json → Option String
  | .string value => some value
  | _ => none

/-- The items of an array value. -/
def array? : Json → Option (List Json)
  | .array items => some items
  | _ => none

/-- The members of an object value. -/
def members? : Json → Option (List (String × Json))
  | .object members => some members
  | _ => none

/-- The signed integer of 64 bits that a value is. -/
def int64? : Json → Option Int
  | .number value => value.int64?
  | _ => none

/-- Whether the value is `null`. -/
def isNull : Json → Bool
  | .null => true
  | _ => false

end Json

end ModelGraph
