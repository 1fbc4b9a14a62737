import ModelGraph.Request.Inline
import ModelGraph.Schema.InputValue

/-!
# Requests that suit a schema

A document is admitted when everything it selects exists, has the arguments it needs, and gives one
meaning to every response key. Operations are judged with their fragments written out; as every
fragment must be used, this judges the fragments too.

## Main definitions

- `Call` — arguments together with the parameters they are for
- `Schema.calls?` — the calls of selections that fit their type
- `Selection.coherent` — whether equal response keys ask for the same thing
- `Schema.admits` — whether a document suits a schema
-/

namespace ModelGraph

/-- Arguments, with the parameters they are for. -/
structure Call where
  parameters : List SchemaInput
  arguments : List (String × ArgValue)

namespace Call

/-- The parameter of a name. -/
def parameter? (call : Call) (name : String) : Option SchemaInput :=
  call.parameters.find? fun parameter => parameter.name = name

/-- The names of the variables in the arguments. -/
def variableNames (call : Call) : List String :=
  call.arguments.flatMap fun argument => argument.2.variableNames

/-- Whether an argument is for a parameter that takes its value. A value with a variable that is not
given is not judged. -/
def argumentFits (schema : Schema) (bindings : Variables) (call : Call)
    (argument : String × ArgValue) : Bool :=
  match call.parameter? argument.1 with
  | none => false
  | some parameter =>
    match argument.2.substitute bindings.get? with
    | .ok value => schema.accepts value parameter.type
    | .error _ => true

/-- Whether each argument is given once and fits, and every parameter that refuses null has one. -/
def fits (schema : Schema) (bindings : Variables) (call : Call) : Bool :=
  decide (call.arguments.map Prod.fst).Nodup
    && call.arguments.all (call.argumentFits schema bindings)
    && call.parameters.all fun parameter =>
      !parameter.type.isNonNull || call.arguments.any fun argument => argument.1 = parameter.name

/-- The variables of the arguments, with the types at their places. -/
def positions (schema : Schema) (call : Call) : List (String × TypeRef) :=
  call.arguments.flatMap fun argument =>
    match call.parameter? argument.1 with
    | some parameter => schema.positions argument.2 parameter.type
    | none => []

/-- The calls of directives, when they are known and each stands once. -/
def ofDirectives? (directives : List Directive) : Option (List Call) :=
  let names := directives.map Directive.name
  if names.Nodup ∧ ∀ name ∈ names, name = Directive.skip ∨ name = Directive.includeOnly then
    some <| directives.map fun directive =>
      ⟨[⟨Directive.condition, .required OutputScalar.boolean.name⟩], directive.arguments⟩
  else none

end Call

namespace SchemaType

/-- The type and the parameters of a field that can be selected. -/
def selectable? (type : SchemaType) (field : String) : Option (TypeRef × List SchemaInput) :=
  match type with
  | .object owner => (owner.field? field).map fun field => (field.type, field.parameters)
  | .interface _ name target => if field = name then some (.required target, []) else none
  | _ => none

/-- Whether some object can be of both types. -/
def overlaps (a b : SchemaType) : Bool :=
  a.name = b.name ||
    match a, b with
    | .interface name _ _, .object other | .object other, .interface name _ _ =>
      other.interface = some name
    | _, _ => false

end SchemaType

namespace Schema

/-- The calls of selections on a type, or `none` when one of them does not fit the type. Spreads are
written out beforehand. -/
def calls? (schema : Schema) (parent : SchemaType) : List Selection → Option (List Call)
  | [] => some []
  | .field _ name arguments directives inner :: rest => do
    let others ← calls? schema parent rest
    if name = Selection.typeName then pure others
    else
      let (type, parameters) ← parent.selectable? name
      let conditions ← Call.ofDirectives? directives
      let target ← schema.type? type.innermost
      let below ←
        if target.isComposite then
          if inner.isEmpty then none else calls? schema target inner
        else if inner.isEmpty then some []
        else none
      pure (conditions ++ ⟨parameters, arguments⟩ :: below ++ others)
  | .inline condition directives inner :: rest => do
    let others ← calls? schema parent rest
    let conditions ← Call.ofDirectives? directives
    let below ←
      match condition with
      | none => calls? schema parent inner
      | some name => do
        let target ← schema.type? name
        if target.isComposite ∧ parent.overlaps target then calls? schema target inner else none
    pure (conditions ++ below ++ others)
  | .spread _ _ :: _ => none
termination_by selections => Selection.countAll selections
decreasing_by
  all_goals
    simp only [Selection.countAll, Selection.count]
    omega

end Schema

/-! ### Response keys -/

namespace Selection

/-- A field as it goes into a response: under its key, within the nearest type condition. -/
structure Output where
  condition : Option String
  key : String
  name : String
  arguments : List (String × ArgValue)

/-- The fields that a selection set puts into one object. -/
def outputs (condition : Option String) : List Selection → List Output
  | [] => []
  | .field alias? name arguments _ _ :: rest =>
    ⟨condition, alias?.getD name, name, arguments⟩ :: outputs condition rest
  | .inline inner _ selections :: rest => outputs inner selections ++ outputs condition rest
  | .spread _ _ :: rest => outputs condition rest
termination_by selections => countAll selections
decreasing_by
  all_goals
    simp only [countAll, count]
    omega

/-- Whether two fields are the same field with the same arguments. -/
def Output.agrees (a b : Output) : Bool :=
  a.name = b.name && a.arguments.length == b.arguments.length
    && a.arguments.all fun argument =>
      match b.arguments.find? fun other => other.1 = argument.1 with
      | some other => argument.2.same other.2
      | none => false

/-- Whether every field agrees with the first one of its key. -/
def agreeing (outputs : List Output) : Bool :=
  outputs.all fun output =>
    (outputs.find? fun first => first.condition = output.condition ∧ first.key = output.key).all
      fun first => first.agrees output

/-- Whether fields of one key agree in every selection set. -/
def coherentBelow : List Selection → Bool
  | [] => true
  | .field _ name _ _ inner :: rest =>
    (name == typeName || agreeing (outputs none inner) && coherentBelow inner)
      && coherentBelow rest
  | .inline _ _ inner :: rest =>
    agreeing (outputs none inner) && coherentBelow inner && coherentBelow rest
  | .spread _ _ :: rest => coherentBelow rest
termination_by selections => countAll selections
decreasing_by
  all_goals
    simp only [countAll, count]
    omega

/-- Whether fields of one key agree in a selection set and in those below it. -/
def coherent (selections : List Selection) : Bool :=
  agreeing (outputs none selections) && coherentBelow selections

end Selection

/-! ### Operations -/

namespace Schema

/-- How deeply selections may nest. -/
def maxDepth : Nat := 32

/-- The type that a variable counts as: one with a default is never null. -/
def effectiveType (definition : VariableDef) : TypeRef :=
  let type := TypeRef.ofVariable definition.type
  if definition.default.isSome && !type.isNonNull then .nonNull type else type

/-- Whether a variable has an input type, and a default only where null is allowed. -/
def definitionFits (schema : Schema) (definition : VariableDef) : Bool :=
  let type := TypeRef.ofVariable definition.type
  (schema.type? type.innermost).any SchemaType.isInput
    && match definition.default with
      | none => true
      | some value => !type.isNonNull && schema.accepts value type

/-- Whether a variable is defined with a type that suits a place. -/
def positionFits (definitions : List VariableDef) (position : String × TypeRef) : Bool :=
  match definitions.find? fun definition => definition.name = position.1 with
  | some definition => position.2.isSubtype (effectiveType definition)
  | none => false

/-- Whether the variables of an operation are defined once, are those that calls use, and suit their
places. -/
def variablesFit (schema : Schema) (definitions : List VariableDef) (calls : List Call) : Bool :=
  let names := definitions.map VariableDef.name
  let used := calls.flatMap Call.variableNames
  decide names.Nodup
    && definitions.all (definitionFits schema)
    && used.all names.contains
    && names.all used.contains
    && (calls.flatMap (Call.positions schema)).all (positionFits definitions)

/-- Whether an operation suits the schema. -/
def operationFits (schema : Schema) (fragments : OrderedMap String Fragment)
    (bindings : Variables) (operation : Operation) : Bool :=
  let selections := Selection.inlineSpreads fragments operation.selections
  operation.kind = .query
    && operation.directives.isEmpty
    && (Selection.spreads selections).all (fun name => !fragments.contains name)
    && decide (Selection.depth selections ≤ maxDepth)
    && Selection.coherent selections
    && match (schema.type? query).bind fun root => schema.calls? root selections with
      | none => false
      | some calls =>
        calls.all (Call.fits schema bindings) && variablesFit schema operation.variableDefs calls

/-- Whether a document suits the schema, with the given variables. -/
def admits (schema : Schema) (document : Document) (bindings : Variables) : Bool :=
  let operations := document.operations.toList
  let used := operations.flatMap fun operation =>
    Selection.usedFragments document.fragments operation.selections
  operations.all (operationFits schema document.fragments bindings)
    && document.fragments.values.all (fun fragment => fragment.directives.isEmpty)
    && document.fragments.keys.all used.contains

end Schema

end ModelGraph
