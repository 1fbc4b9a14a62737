import ModelGraph.Request.Document

/-!
# Selections without spreads

Every spread of a fragment can be written out as an inline fragment with the fragment's type
condition and selections. What is left of a selection set then depends only on its directives, and
a selection whose directives leave it out can be dropped with everything below it.

## Main definitions

- `Selection.inlineSpreads` — selections with their fragments written out
- `Selection.prune` — selections without those that `@skip` and `@include` leave out
- `Selection.depth` — how deeply selections nest
- `Selection.usedFragments` — the fragments that selections reach
-/

namespace ModelGraph

namespace Selection

/-- The field that every type has: the name of the type. What stands below it is not looked at. -/
def typeName : String := "__typename"

/-- Writes out the fragments of a selection set. A spread stays as it is where its fragment is
unknown or where it stands inside that fragment. -/
def inlineSpreads (fragments : OrderedMap String Fragment) (selections : List Selection) :
    List Selection :=
  match selections with
  | [] => []
  | .field alias? name arguments directives inner :: rest =>
    .field alias? name arguments directives (inlineSpreads fragments inner)
      :: inlineSpreads fragments rest
  | .inline condition directives inner :: rest =>
    .inline condition directives (inlineSpreads fragments inner) :: inlineSpreads fragments rest
  | .spread name directives :: rest =>
    match _found : fragments.get? name with
    | none => .spread name directives :: inlineSpreads fragments rest
    | some fragment =>
      .inline (some fragment.condition) directives
          (inlineSpreads (fragments.erase name) fragment.selections)
        :: inlineSpreads fragments rest
-- A fragment that is entered leaves the fragments that may still be.
termination_by Fragment.countAll fragments + Selection.countAll selections
decreasing_by
  all_goals simp only [Selection.countAll, Selection.count]
  all_goals first
    | omega
    | have hleft := Fragment.countAll_erase_le _found
      omega

end Selection

/-- The fragments that a selection set reaches through spreads. -/
def Selection.usedFragments (fragments : OrderedMap String Fragment)
    (selections : List Selection) : List String :=
  match selections with
  | [] => []
  | .field _ name _ _ inner :: rest =>
    (if name = typeName then [] else usedFragments fragments inner) ++ usedFragments fragments rest
  | .inline _ _ inner :: rest => usedFragments fragments inner ++ usedFragments fragments rest
  | .spread name _ :: rest =>
    match _found : fragments.get? name with
    | none => usedFragments fragments rest
    | some fragment =>
      name :: usedFragments (fragments.erase name) fragment.selections
        ++ usedFragments fragments rest
-- A fragment that is entered leaves the fragments that may still be.
termination_by Fragment.countAll fragments + Selection.countAll selections
decreasing_by
  all_goals simp only [Selection.countAll, Selection.count]
  all_goals first
    | omega
    | have hleft := Fragment.countAll_erase_le _found
      omega

/-! ### Conditional selections -/

namespace Directive

/-- The directive that leaves a selection out where its condition holds. -/
def skip : String := "skip"

/-- The directive that leaves a selection out where its condition does not hold. -/
def includeOnly : String := "include"

/-- The parameter that holds the condition of either. -/
def condition : String := "if"

/-- The argument of a name. -/
def argument? (directive : Directive) (name : String) : Option ArgValue :=
  (directive.arguments.find? fun argument => argument.1 = name).map Prod.snd

/-- Whether a condition holds. What is not the value `true`, or has an unbound variable, does not. -/
def holds (bindings : Variables) (value : ArgValue) : Bool :=
  match value.substitute bindings.get? with
  | .ok (.bool value) => value
  | _ => false

/-- Whether a directive leaves its selection in. -/
def keeps (bindings : Variables) (directive : Directive) : Bool :=
  match directive.argument? condition with
  | none => true
  | some value =>
    if directive.name = skip then !holds bindings value
    else if directive.name = includeOnly then holds bindings value
    else true

end Directive

namespace Selection

/-- Drops the selections that a directive leaves out. -/
def prune (bindings : Variables) : List Selection → List Selection
  | [] => []
  | .field alias? name arguments directives inner :: rest =>
    if directives.all (Directive.keeps bindings) then
      .field alias? name arguments directives (prune bindings inner) :: prune bindings rest
    else prune bindings rest
  | .inline condition directives inner :: rest =>
    if directives.all (Directive.keeps bindings) then
      .inline condition directives (prune bindings inner) :: prune bindings rest
    else prune bindings rest
  | .spread name directives :: rest =>
    if directives.all (Directive.keeps bindings) then
      .spread name directives :: prune bindings rest
    else prune bindings rest
termination_by selections => countAll selections
decreasing_by
  all_goals
    simp only [countAll, count]
    omega

/-- How many levels lie below a selection set. Every inline fragment is a level. -/
def depth : List Selection → Nat
  | [] => 0
  | .field _ _ _ _ inner :: rest =>
    max (if inner.isEmpty then 0 else depth inner + 1) (depth rest)
  | .inline _ _ inner :: rest => max (depth inner + 1) (depth rest)
  | .spread _ _ :: rest => depth rest
termination_by selections => countAll selections
decreasing_by
  all_goals
    simp only [countAll, count]
    omega

/-- The names that are spread, at any level. -/
def spreads : List Selection → List String
  | [] => []
  | .field _ _ _ _ inner :: rest => spreads inner ++ spreads rest
  | .inline _ _ inner :: rest => spreads inner ++ spreads rest
  | .spread name _ :: rest => name :: spreads rest
termination_by selections => countAll selections
decreasing_by
  all_goals
    simp only [countAll, count]
    omega

end Selection

end ModelGraph
