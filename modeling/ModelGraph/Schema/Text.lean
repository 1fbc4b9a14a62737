import ModelGraph.Schema.Basic

/-!
# Writing schemas

A schema in the schema definition language: types in order of their names, then the two directives
that every schema has, then the root type.

## Main definitions

- `Schema.text` — the written schema
-/

namespace ModelGraph.Schema

/-- A description above a line, at an indent. -/
def descriptionText (indent : String) (description : Option String) : String :=
  match description with
  | none => ""
  | some text =>
    let quotes := indent ++ "\"\"\"\n"
    let body := text.toList.flatMap fun c => if c = '\n' then '\n' :: indent.toList else [c]
    quotes ++ indent ++ String.ofList body ++ "\n" ++ quotes

/-- A parameter or an input field. -/
def inputText (input : SchemaInput) : String :=
  input.name ++ ": " ++ input.type.text

/-- The parameters of a field, in parentheses when there are any. -/
def parametersText (parameters : List SchemaInput) : String :=
  if parameters.isEmpty then ""
  else "(" ++ ", ".intercalate (parameters.map inputText) ++ ")"

/-- A field on a line of its own. -/
def fieldText (field : SchemaField) : String :=
  descriptionText "\t" field.description
    ++ "\t" ++ field.name ++ parametersText field.parameters ++ ": " ++ field.type.text ++ "\n"

/-- A type with lines between braces. -/
def blockText (head : String) (lines : List String) : String :=
  head ++ " \x7b\n" ++ String.join lines ++ "\x7d\n"

/-- A type. -/
def typeText : SchemaType → String
  | .scalar name => "scalar " ++ name ++ "\n"
  | .enum name items => blockText ("enum " ++ name) (items.map fun item => "\t" ++ item ++ "\n")
  | .interface name field type =>
    blockText ("interface " ++ name)
      ["\t" ++ inputText ⟨field, .required type⟩ ++ "\n"]
  | .object type =>
    let interface := match type.interface with
      | some interface => " implements " ++ interface
      | none => ""
    let fields := type.fields.filter fun field => !isReserved field.name
    descriptionText "" type.description
      ++ blockText ("type " ++ type.name ++ interface) (fields.map fieldText)
  | .input name fields =>
    blockText ("input " ++ name) (fields.map fun field => "\t" ++ inputText field ++ "\n")

/-- A directive with one condition. -/
def directiveText (name action : String) : String :=
  descriptionText "" (some <|
    "Directs the executor to " ++ action
      ++ " this field or fragment" ++ (if name = "include" then " only" else "")
      ++ " when the `if` argument is true.")
    ++ "directive @" ++ name ++ "(if: Boolean!) on FIELD | FRAGMENT_SPREAD | INLINE_FRAGMENT\n"

/-- The order of types by name. -/
def nameLe (a b : SchemaType) : Bool := compareBytes a.name b.name != .gt

/-- The written schema. -/
def text (schema : Schema) : String :=
  let types := schema.types.values.filter fun type => !isReserved type.name
  let sorted := types.mergeSort nameLe
  String.join (sorted.map fun type => typeText type ++ "\n")
    ++ directiveText "include" "include" ++ directiveText "skip" "skip"
    ++ blockText "schema" ["\tquery: " ++ query ++ "\n"]

end ModelGraph.Schema
