import ModelGraph.Model.Basic
import ModelGraph.Tree.Record

/-!
# Reading declared models

Models read from a document tree. In a YAML document the parts of a model, and those of its fields
that every field has, are read by their spelling; the shape of a field, with all that stands below
it, is read by content. In a JSON document everything is read by content.

## Main definitions

- `FieldDecl.ofTree?` — a declared field
- `ModelDecl.ofTree?`, `ModelSet.ofTree?` — models and sets of models
- `HookNames.ofTree?` — hook names
-/

namespace ModelGraph

/-- The parts of hook names, in order. -/
def HookNames.parts : List String := ["pre", "post"]

/-- Reads hook names. -/
def HookNames.ofTree? (reading : Reading) (t : Tree) : Option HookNames := do
  let ⟨r, _⟩ ← t.record? reading
  if r.fits parts then
    let pre ← r.defaulted parts "pre" [] (Tree.texts? reading)
    let post ← r.defaulted parts "post" [] (Tree.texts? reading)
    pure { pre, post }
  else none

/-- Reads a cardinality: its exact name, or a mapping from the name to null. -/
def Cardinality.ofTree? (t : Tree) : Option Cardinality :=
  let ofKey (key : Option PartKey) : Option Cardinality :=
    match key.bind (Record.fieldName? ["single", "plural"]) with
    | some "single" => some .single
    | some "plural" => some .plural
    | _ => none
  match t with
  | .mapping _ [(key, value)] =>
    let isUnit : Bool := match value with
      | .scalar s => s.content == .null
      | .mapping _ entries => entries.isEmpty
      | _ => false
    if isUnit then ofKey (Record.key? .typed key) else none
  | t =>
    match t.text? .typed with
    | some name => ofKey (some (.name name))
    | none => none

namespace FieldDecl

/-- The kinds of field shapes, in order. -/
def shapeKinds : List String := ["scalar", "list", "nested", "embedded", "reference"]

/-- The kinds of element shapes, in order. -/
def elementKinds : List String := ["scalar", "nested", "embedded"]

/-- The parts that every field has. -/
def commonParts : List String := ["name", "non_null", "hidden", "description", "hooks"]

/-- Whether a part is one that every field has. -/
def isCommonPart (member : PartKey × Tree) : Bool :=
  match member.1 with
  | .name name => commonParts.contains name
  | .place _ => false

/-- The kind that a tree names, by name or place. -/
def kind? (kinds : List String) (t : Tree) : Option String :=
  (Record.key? .typed t).bind (Record.fieldName? kinds)

/-- Whether a part is the kind of a shape. -/
def isKindPart (member : PartKey × Tree) : Bool :=
  member.1 = .name "kind"

/-- The kind of a shape and its other parts: of a mapping the part `kind`, given once, of a list
the first item. -/
def splitKind? (kinds : List String) :
    (r : Record) → Option (String × { rest : Record // rest.size ≤ r.size })
  | .named members =>
    match members.filter isKindPart with
    | [(_, t)] => do
      let kind ← kind? kinds t
      pure (kind, ⟨.named (members.filter fun member => !isKindPart member),
        Record.membersSize_filter_le _ _⟩)
    | _ => none
  | .listed (item :: rest) => do
    let kind ← kind? kinds item
    pure (kind, ⟨.listed rest, by simp only [Record.size, Tree.sizeItems]; omega⟩)
  | .listed [] => none

/-- Reads the kind of a scalar. -/
def scalarKind? (t : Tree) : Option ScalarKind :=
  (t.text? .typed).map ScalarKind.ofName

mutual

/-- Reads a declared field. -/
def ofTree? (reading : Reading) (t : Tree) : Option FieldDecl :=
  match t with
  | .mapping tag entries =>
    match h : Record.members? reading entries with
    | none => none
    | some members => do
      have hsize : Record.membersSize members < (Tree.mapping tag entries).size := by
        have := Record.membersSize_le h
        simp only [Tree.size]
        omega
      let common : Record := .named (members.filter isCommonPart)
      let others := members.filter fun member => !isCommonPart member
      have hothers := Record.membersSize_filter_le (fun member => !isCommonPart member) members
      if common.fits commonParts && others.all fun member => member.2.isBuffered then
        let name ← common.required commonParts "name" (Tree.text? reading)
        let nonNull ← common.defaulted commonParts "non_null" false (Tree.bool? reading)
        let hidden ← common.defaulted commonParts "hidden" false (Tree.bool? reading)
        let description ←
          common.defaulted commonParts "description" none (Tree.optionalText? reading)
        let hooks ← common.defaulted commonParts "hooks" {} (HookNames.ofTree? reading)
        let shape ← shapeOf? (.named others)
        pure { name, shape, nonNull, hidden, description, hooks }
      else none
  | _ => none
termination_by (t.size, 0)
decreasing_by all_goals (simp only [Record.size]; omega)

/-- Reads the shape of a field, by content. -/
def shapeOf? (r : Record) : Option (FieldShape FieldDecl) := do
  let ⟨kind, ⟨rest, _⟩⟩ ← splitKind? shapeKinds r
  match kind with
  | "scalar" =>
    let parts := ["type", "enum_values"]
    if rest.fits parts then
      let kind ← rest.required parts "type" scalarKind?
      let values ← rest.defaulted parts "enum_values" [] (Tree.texts? .typed)
      pure (.scalar kind values)
    else none
  | "list" =>
    let parts := ["element"]
    if rest.fits parts then
      let ⟨t, _⟩ ← rest.part? parts "element"
      let ⟨r', _⟩ ← t.record? .typed
      let element ← elementOf? r'
      pure (.list element)
    else none
  | "nested" =>
    let parts := ["fields"]
    if rest.fits parts then
      let ⟨t, _⟩ ← rest.part? parts "fields"
      let ⟨items, _⟩ ← t.items? .typed
      let fields ← allOf? .typed items
      pure (.nested fields)
    else none
  | "embedded" =>
    let parts := ["model", "fields"]
    if rest.fits parts then
      let model ← rest.required parts "model" (Tree.text? .typed)
      let ⟨t, _⟩ ← rest.part? parts "fields"
      let ⟨items, _⟩ ← t.items? .typed
      let fields ← allOf? .typed items
      pure (.embedded model fields)
    else none
  | _ =>
    let parts := ["target", "cardinality"]
    if rest.fits parts then
      let target ← rest.required parts "target" (Tree.text? .typed)
      let cardinality ← rest.defaulted parts "cardinality" .single Cardinality.ofTree?
      pure (.reference target cardinality)
    else none
termination_by (r.size, 1)
decreasing_by all_goals omega

/-- Reads the shape of a list's elements, by content. -/
def elementOf? (r : Record) : Option (ElementShape FieldDecl) := do
  let ⟨kind, ⟨rest, _⟩⟩ ← splitKind? elementKinds r
  match kind with
  | "scalar" =>
    let parts := ["type", "enum_values"]
    if rest.fits parts then
      let kind ← rest.required parts "type" scalarKind?
      let values ← rest.defaulted parts "enum_values" [] (Tree.texts? .typed)
      pure (.scalar kind values)
    else none
  | "nested" =>
    let parts := ["fields"]
    if rest.fits parts then
      let ⟨t, _⟩ ← rest.part? parts "fields"
      let ⟨items, _⟩ ← t.items? .typed
      let fields ← allOf? .typed items
      pure (.nested fields)
    else none
  | _ =>
    let parts := ["model", "fields"]
    if rest.fits parts then
      let model ← rest.required parts "model" (Tree.text? .typed)
      let ⟨t, _⟩ ← rest.part? parts "fields"
      let ⟨items, _⟩ ← t.items? .typed
      let fields ← allOf? .typed items
      pure (.embedded model fields)
    else none
termination_by (r.size, 1)
decreasing_by all_goals omega

/-- Reads declared fields one by one. -/
def allOf? (reading : Reading) (items : List Tree) : Option (List FieldDecl) :=
  match items with
  | [] => some []
  | item :: rest => do
    let field ← ofTree? reading item
    let fields ← allOf? reading rest
    pure (field :: fields)
termination_by (Tree.sizeItems items, 1)
decreasing_by
  all_goals (simp only [Tree.sizeItems]; have := Tree.size_pos item; omega)

end

/-- Reads a list of declared fields. -/
def listOf? (reading : Reading) (t : Tree) : Option (List FieldDecl) := do
  let ⟨items, _⟩ ← t.items? reading
  allOf? reading items

end FieldDecl

namespace ModelDecl

/-- The parts of a model, in order. -/
def parts : List String := ["key", "name", "version", "description", "fields", "hooks"]

/-- Reads a declared model. -/
def ofTree? (reading : Reading) (t : Tree) : Option ModelDecl := do
  let ⟨r, _⟩ ← t.record? reading
  if r.fits parts then
    let key ← r.required parts "key" (Tree.text? reading)
    let name ← r.required parts "name" (Tree.text? reading)
    let version ← r.defaulted parts "version" none (Tree.optionalText? reading)
    let description ← r.defaulted parts "description" none (Tree.optionalText? reading)
    let fields ← r.defaulted parts "fields" [] (FieldDecl.listOf? reading)
    let hooks ← r.defaulted parts "hooks" {} (HookNames.ofTree? reading)
    pure { key, name, version, description, fields, hooks }
  else none

/-- Reads a list of declared models. -/
def listOf? (reading : Reading) (t : Tree) : Option (List ModelDecl) := do
  let ⟨items, _⟩ ← t.items? reading
  items.mapM (ofTree? reading)

/-- Reads a list of declared models from JSON. -/
def listOfJson? (value : Json) : Option (List ModelDecl) :=
  listOf? .typed (.ofJson value)

end ModelDecl

namespace ModelSet

/-- Reads a set of models. -/
def ofTree? (reading : Reading) (t : Tree) : Option ModelSet := do
  let ⟨r, _⟩ ← t.record? reading
  if r.fits ["models"] then
    let models ← r.defaulted ["models"] "models" [] (ModelDecl.listOf? reading)
    pure { models }
  else none

end ModelSet

end ModelGraph
