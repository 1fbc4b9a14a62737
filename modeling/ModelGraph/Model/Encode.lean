import ModelGraph.Model.Basic
import ModelGraph.Json.Basic

/-!
# Writing declared models

Models as JSON. Absent texts and empty hooks and enum values are left out; the two flags of a
field are always written.

## Main definitions

- `FieldDecl.toJson`, `ModelDecl.toJson`, `ModelSet.toJson`
-/

namespace ModelGraph

/-- A member for a list of texts, unless it is empty. -/
def textsMember (name : String) (texts : List String) : List (String × Json) :=
  if texts.isEmpty then [] else [(name, .ofTexts texts)]

/-- A member for a text, when there is one. -/
def textMember (name : String) (text : Option String) : List (String × Json) :=
  match text with
  | some text => [(name, .string text)]
  | none => []

namespace HookNames

/-- Hook names as an object. -/
def toJson (hooks : HookNames) : Json :=
  .object (textsMember "pre" hooks.pre ++ textsMember "post" hooks.post)

/-- A member for hook names, unless there are none. -/
def member (hooks : HookNames) : List (String × Json) :=
  if hooks.isEmpty then [] else [("hooks", hooks.toJson)]

end HookNames

namespace FieldDecl

/-- The members of a scalar shape. -/
def scalarMembers (kind : ScalarKind) (values : List String) : List (String × Json) :=
  ("kind", .string "scalar") :: ("type", .string kind.name) :: textsMember "enum_values" values

mutual

/-- A declared field as an object: its name, its shape and what every field has. -/
def toJson : FieldDecl → Json
  | ⟨name, shape, nonNull, hidden, description, hooks⟩ =>
    .object <|
      [("name", .string name)] ++ shapeMembers shape
        ++ [("non_null", .bool nonNull), ("hidden", .bool hidden)]
        ++ textMember "description" description ++ hooks.member

/-- The members of a field's shape. -/
def shapeMembers : FieldShape FieldDecl → List (String × Json)
  | .scalar kind values => scalarMembers kind values
  | .list element => [("kind", .string "list"), ("element", .object (elementMembers element))]
  | .nested fields => [("kind", .string "nested"), ("fields", .array (allToJson fields))]
  | .embedded model fields =>
    [("kind", .string "embedded"), ("model", .string model), ("fields", .array (allToJson fields))]
  | .reference target cardinality =>
    [("kind", .string "reference"), ("target", .string target),
      ("cardinality", .string cardinality.name)]

/-- The members of an element's shape. -/
def elementMembers : ElementShape FieldDecl → List (String × Json)
  | .scalar kind values => scalarMembers kind values
  | .nested fields => [("kind", .string "nested"), ("fields", .array (allToJson fields))]
  | .embedded model fields =>
    [("kind", .string "embedded"), ("model", .string model), ("fields", .array (allToJson fields))]

/-- Declared fields as objects. -/
def allToJson : List FieldDecl → List Json
  | [] => []
  | field :: rest => toJson field :: allToJson rest

end

end FieldDecl

/-- A declared model as an object. -/
def ModelDecl.toJson (model : ModelDecl) : Json :=
  .object <|
    [("key", .string model.key), ("name", .string model.name)]
      ++ textMember "version" model.version ++ textMember "description" model.description
      ++ [("fields", .array (FieldDecl.allToJson model.fields))] ++ model.hooks.member

/-- A set of models as an object. -/
def ModelSet.toJson (set : ModelSet) : Json :=
  .object [("models", .array (set.models.map ModelDecl.toJson))]

end ModelGraph
