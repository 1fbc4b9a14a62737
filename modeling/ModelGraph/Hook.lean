import ModelGraph.Model.Basic
import ModelGraph.Query.Compile

/-!
# Resolvers and hooks

A resolver answers a field. Hooks run around it in the order in which they are named: pre hooks
before, post hooks after. Every post hook sees the resolver's own result, and only the outcome of
the last one decides. The first failure ends the run and is returned as it is.

Resolvers and hooks act on a world `ω`, which a failure does not undo.

## Main definitions

- `Effect`, `Resolver`, `PreHook`, `PostHook` — actions on a world
- `HookOutcome` — whether a post hook replaces the result
- `Resolver.hooked` — a resolver with hooks around it
- `HookRegistry.compose` — the hooks of given names around a resolver
-/

namespace ModelGraph

/-- What one resolution of a field is given. -/
structure ResolveParams where
  typeName : String
  field : String
  /-- The arguments, as an object. -/
  args : Json
  /-- The value of the parent; null on root fields. -/
  parent : Json
  /-- What the selection of a root field compiles to. -/
  query : CompiledQuery := {}

/-- An action on a world that may fail with a message. -/
abbrev Effect (ω α : Type) := ExceptT String (StateM ω) α

/-- Answers a field. -/
abbrev Resolver (ω : Type) := ResolveParams → Effect ω Json

/-- Runs before a resolver. -/
abbrev PreHook (ω : Type) := ResolveParams → Effect ω Unit

/-- Whether a post hook leaves the result or puts another in its place. -/
inductive HookOutcome where
  | keep
  | replace (value : Json)
deriving DecidableEq

/-- Runs after a resolver, on the resolver's result. -/
abbrev PostHook (ω : Type) := Json → ResolveParams → Effect ω HookOutcome

namespace HookOutcome

/-- Whether a value says nothing: null, false, and empty strings, lists and objects. -/
def isNothing : Json → Bool
  | .null | .bool false => true
  | .string text => text.isEmpty
  | .array items => items.isEmpty
  | .object members => members.isEmpty
  | _ => false

/-- A value that says something replaces the result. -/
def ofValue? (value : Option Json) : HookOutcome :=
  match value with
  | some value => if isNothing value then keep else replace value
  | none => keep

/-- The result that an outcome leaves. -/
def apply (outcome : HookOutcome) (result : Json) : Json :=
  match outcome with
  | keep => result
  | replace value => value

end HookOutcome

namespace Resolver

variable {ω : Type}

/-- Runs post hooks in order on one result; the outcome is that of the last. -/
def runPost (result : Json) (params : ResolveParams) :
    List (PostHook ω) → HookOutcome → Effect ω HookOutcome
  | [], last => pure last
  | hook :: rest, _ => do
    let outcome ← hook result params
    runPost result params rest outcome

/-- A resolver with hooks around it. -/
def hooked (pre : List (PreHook ω)) (post : List (PostHook ω)) (inner : Resolver ω) :
    Resolver ω := fun params => do
  pre.forM fun hook => hook params
  let result ← inner params
  let outcome ← runPost result params post .keep
  pure (outcome.apply result)

end Resolver

/-- A hook name that nothing is registered under. -/
inductive HookError where
  | unknownPre (name : String)
  | unknownPost (name : String)
deriving DecidableEq, Repr

/-- The wording of an error. -/
def HookError.message : HookError → String
  | .unknownPre name => "Unknown pre hook: " ++ name
  | .unknownPost name => "Unknown post hook: " ++ name

/-- Hooks by name. -/
structure HookRegistry (ω : Type) where
  pre : OrderedMap String (PreHook ω) := ∅
  post : OrderedMap String (PostHook ω) := ∅

namespace HookRegistry

variable {ω : Type}

/-- The pre hooks of the given names, or the first name that is not registered. -/
def preHooks (registry : HookRegistry ω) (names : List String) :
    Except HookError (List (PreHook ω)) :=
  names.mapM fun name =>
    match registry.pre.get? name with
    | some hook => .ok hook
    | none => .error (.unknownPre name)

/-- The post hooks of the given names, or the first name that is not registered. -/
def postHooks (registry : HookRegistry ω) (names : List String) :
    Except HookError (List (PostHook ω)) :=
  names.mapM fun name =>
    match registry.post.get? name with
    | some hook => .ok hook
    | none => .error (.unknownPost name)

/-- Puts the named hooks around a resolver. Where no hook is named the resolver stays as it is. -/
def compose (registry : HookRegistry ω) (names : HookNames) (resolver : Resolver ω) :
    Except HookError (Resolver ω) :=
  if names.isEmpty then .ok resolver
  else do
    let pre ← registry.preHooks names.pre
    let post ← registry.postHooks names.post
    pure (.hooked pre post resolver)

end HookRegistry

end ModelGraph
