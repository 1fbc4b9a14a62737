import ModelGraph.Text.Case

/-!
# Declared data models

What a storage layer declares: models with fields, where a field is a scalar, a list, a nested or
embedded shape, or a reference to records of another model.

## Main definitions

- `ScalarKind`, `Cardinality` — kinds of scalars and references
- `HookNames` — the hooks around a field or a model
- `FieldDecl`, `ModelDecl` — declared fields and models
- `ModelDecl.cacheIdentity` — what tells versions of a model apart
-/

namespace ModelGraph

/-- The storage kind of a scalar field. -/
inductive ScalarKind where
  | string
  | number
  | date
  | buffer
  | boolean
  | objectId
  /-- A kind without a canonical scalar, as spelled. -/
  | other (name : String)
deriving DecidableEq, Repr

namespace ScalarKind

/-- Reads a kind. Aliases and letter case do not matter; an unknown kind is kept as spelled. -/
def ofName (name : String) : ScalarKind :=
  let lower := Text.lower name
  if lower = "string" then string
  else if lower = "number" ∨ lower = "float" ∨ lower = "double" then number
  else if lower = "date" ∨ lower = "datetime" then date
  else if lower = "buffer" ∨ lower = "binary" then buffer
  else if lower = "boolean" ∨ lower = "bool" then boolean
  else if lower = "objectid" ∨ lower = "object_id" ∨ lower = "id" then objectId
  else other name

/-- The canonical name of a kind. -/
def name : ScalarKind → String
  | string => "string"
  | number => "number"
  | date => "date"
  | buffer => "buffer"
  | boolean => "boolean"
  | objectId => "objectid"
  | other name => name

/-- Whether the kind has no canonical scalar. -/
def isOther : ScalarKind → Bool
  | other _ => true
  | _ => false

end ScalarKind

/-- Whether a reference points at one record or at many. -/
inductive Cardinality where
  | single
  | plural
deriving DecidableEq, Repr

namespace Cardinality

/-- The name of a cardinality. -/
def name : Cardinality → String
  | single => "single"
  | plural => "plural"

/-- Reads a cardinality, with its aliases, in any letter case. -/
def ofName? (name : String) : Option Cardinality :=
  let lower := Text.lower name
  if lower = "single" ∨ lower = "one" then some single
  else if lower = "plural" ∨ lower = "many" then some plural
  else none

end Cardinality

/-- The names of the hooks before and after a resolver. -/
structure HookNames where
  pre : List String := []
  post : List String := []
deriving DecidableEq, Repr, Inhabited

/-- Whether no hook is named. -/
def HookNames.isEmpty (hooks : HookNames) : Bool :=
  hooks.pre.isEmpty && hooks.post.isEmpty

/-- The shape of a list's elements, over the type of declared fields. -/
inductive ElementShape (Field : Type) where
  | scalar (kind : ScalarKind) (enumValues : List String)
  | nested (fields : List Field)
  | embedded (model : String) (fields : List Field)
deriving Repr

/-- The shape of a field, over the type of declared fields. -/
inductive FieldShape (Field : Type) where
  | scalar (kind : ScalarKind) (enumValues : List String)
  | list (element : ElementShape Field)
  | nested (fields : List Field)
  | embedded (model : String) (fields : List Field)
  | reference (target : String) (cardinality : Cardinality)
deriving Repr

/-- A declared field. -/
structure FieldDecl where
  name : String
  shape : FieldShape FieldDecl
  nonNull : Bool := false
  /-- Hidden fields never reach the output types. -/
  hidden : Bool := false
  description : Option String := none
  hooks : HookNames := {}
deriving Repr

/-- A declared model. -/
structure ModelDecl where
  /-- Unique within one synthesis run. -/
  key : String
  /-- The output type's name before rewriting, and the name references aim at. -/
  name : String
  version : Option String := none
  description : Option String := none
  fields : List FieldDecl := []
  hooks : HookNames := {}
deriving Repr

namespace FieldDecl

mutual

/-- Equality of declared fields is decidable. -/
def decEq : (a b : FieldDecl) → Decidable (a = b)
  | ⟨name, shape, nonNull, hidden, description, hooks⟩,
    ⟨name', shape', nonNull', hidden', description', hooks'⟩ =>
    match decEqShape shape shape' with
    | .isFalse h => .isFalse fun h' => h (FieldDecl.mk.inj h').2.1
    | .isTrue h =>
      if h' : name = name' ∧ nonNull = nonNull' ∧ hidden = hidden' ∧ description = description'
          ∧ hooks = hooks' then
        .isTrue (by obtain ⟨rfl, rfl, rfl, rfl, rfl⟩ := h'; rw [h])
      else .isFalse fun e => by
        obtain ⟨h₁, _, h₂⟩ := FieldDecl.mk.inj e
        exact h' ⟨h₁, h₂⟩

/-- Equality of field shapes is decidable. -/
def decEqShape : (a b : FieldShape FieldDecl) → Decidable (a = b)
  | .scalar kind values, .scalar kind' values' =>
    if h : kind = kind' ∧ values = values' then .isTrue (by rw [h.1, h.2])
    else .isFalse (by simpa using h)
  | .list a, .list b =>
    match decEqElement a b with
    | .isTrue h => .isTrue (by rw [h])
    | .isFalse h => .isFalse (by simpa using h)
  | .nested a, .nested b =>
    match decEqAll a b with
    | .isTrue h => .isTrue (by rw [h])
    | .isFalse h => .isFalse (by simpa using h)
  | .embedded m a, .embedded n b =>
    match decEqAll a b with
    | .isTrue h => if h' : m = n then .isTrue (by rw [h, h']) else .isFalse (by simp [h'])
    | .isFalse h => .isFalse (by simp [h])
  | .reference t c, .reference t' c' =>
    if h : t = t' ∧ c = c' then .isTrue (by rw [h.1, h.2]) else .isFalse (by simpa using h)
  | .scalar _ _, .list _ | .scalar _ _, .nested _ | .scalar _ _, .embedded _ _
  | .scalar _ _, .reference _ _ | .list _, .scalar _ _ | .list _, .nested _
  | .list _, .embedded _ _ | .list _, .reference _ _ | .nested _, .scalar _ _
  | .nested _, .list _ | .nested _, .embedded _ _ | .nested _, .reference _ _
  | .embedded _ _, .scalar _ _ | .embedded _ _, .list _ | .embedded _ _, .nested _
  | .embedded _ _, .reference _ _ | .reference _ _, .scalar _ _ | .reference _ _, .list _
  | .reference _ _, .nested _ | .reference _ _, .embedded _ _ => .isFalse (by simp)

/-- Equality of element shapes is decidable. -/
def decEqElement : (a b : ElementShape FieldDecl) → Decidable (a = b)
  | .scalar kind values, .scalar kind' values' =>
    if h : kind = kind' ∧ values = values' then .isTrue (by rw [h.1, h.2])
    else .isFalse (by simpa using h)
  | .nested a, .nested b =>
    match decEqAll a b with
    | .isTrue h => .isTrue (by rw [h])
    | .isFalse h => .isFalse (by simpa using h)
  | .embedded m a, .embedded n b =>
    match decEqAll a b with
    | .isTrue h => if h' : m = n then .isTrue (by rw [h, h']) else .isFalse (by simp [h'])
    | .isFalse h => .isFalse (by simp [h])
  | .scalar _ _, .nested _ | .scalar _ _, .embedded _ _ | .nested _, .scalar _ _
  | .nested _, .embedded _ _ | .embedded _ _, .scalar _ _ | .embedded _ _, .nested _ =>
    .isFalse (by simp)

/-- Equality of lists of declared fields is decidable. -/
def decEqAll : (a b : List FieldDecl) → Decidable (a = b)
  | [], [] => .isTrue rfl
  | [], _ :: _ | _ :: _, [] => .isFalse (by simp)
  | a :: as, b :: bs =>
    match decEq a b with
    | .isFalse h => .isFalse fun h' => h (List.cons.inj h').1
    | .isTrue h =>
      match decEqAll as bs with
      | .isTrue h' => .isTrue (by rw [h, h'])
      | .isFalse h' => .isFalse fun h'' => h' (List.cons.inj h'').2

end

instance : DecidableEq FieldDecl := decEq

instance : Inhabited FieldDecl := ⟨{ name := "", shape := .scalar .string [] }⟩

/-! ### Declaring fields -/

/-- A scalar field. -/
def scalar (name : String) (kind : ScalarKind) : FieldDecl :=
  { name, shape := .scalar kind [] }

/-- A string field with a fixed set of stored values. -/
def enumeration (name : String) (values : List String) : FieldDecl :=
  { name, shape := .scalar .string values }

/-- A list field. -/
def list (name : String) (element : ElementShape FieldDecl) : FieldDecl :=
  { name, shape := .list element }

/-- A field with fields of its own. -/
def nested (name : String) (fields : List FieldDecl) : FieldDecl :=
  { name, shape := .nested fields }

/-- A field that holds a record of a shared shape. -/
def embedded (name model : String) (fields : List FieldDecl) : FieldDecl :=
  { name, shape := .embedded model fields }

/-- A reference to one record of `target`. -/
def reference (name target : String) : FieldDecl :=
  { name, shape := .reference target .single }

/-- References to many records of `target`. -/
def references (name target : String) : FieldDecl :=
  { name, shape := .reference target .plural }

/-- The field, never null. -/
def asNonNull (field : FieldDecl) : FieldDecl := { field with nonNull := true }

/-- The field, kept out of the output types. -/
def asHidden (field : FieldDecl) : FieldDecl := { field with hidden := true }

/-- The field with a description. -/
def withDescription (field : FieldDecl) (description : String) : FieldDecl :=
  { field with description := some description }

/-- The field with hooks. -/
def withHooks (field : FieldDecl) (hooks : HookNames) : FieldDecl :=
  { field with hooks }

end FieldDecl

deriving instance DecidableEq for ModelDecl

namespace ModelDecl

/-- What tells versions of a model apart in caches: the key, with the version when declared. -/
def cacheIdentity (model : ModelDecl) : String :=
  match model.version with
  | some version => model.key ++ "@" ++ version
  | none => model.key

/-- The first declared field of a name. -/
def field? (model : ModelDecl) (name : String) : Option FieldDecl :=
  model.fields.find? fun field => field.name = name

end ModelDecl

/-- A source of model declarations: a list of models, looked up by key. -/
structure ModelSet where
  models : List ModelDecl := []
deriving DecidableEq, Repr, Inhabited

namespace ModelSet

/-- The keys of the set, in order. -/
def keys (set : ModelSet) : List String := set.models.map ModelDecl.key

/-- The first model with a key. -/
def find? (set : ModelSet) (key : String) : Option ModelDecl :=
  set.models.find? fun model => model.key = key

/-- The wording for a key that no model has. -/
def notFound (key : String) : String := "Model not found: " ++ key

end ModelSet

end ModelGraph
