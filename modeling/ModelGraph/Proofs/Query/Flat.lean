import ModelGraph.Proofs.Query.Fragments

/-!
# Requests without fragments

The spreads of a request can be written out as inline fragments, and the items of an inline fragment
can stand in its place. Neither changes the trees that a selection set expands to, so a request that
compiles and its flat form, which selects nothing but fields, compile to the same queries.

## Main definitions

- `Selection.dissolve` — selections with the items of inline fragments in their place
- `Selection.OnlyFields` — selections that hold no fragment at any level
- `Document.flatten` — a document whose operations select without fragments

## Main statements

- `SelectionTree.expand_inlineSpreads`, `SelectionTree.expand_dissolve` — the trees stay the same
- `compileRequest_flatten` — so do the queries
-/

namespace ModelGraph

namespace Selection

variable {fragments : OrderedMap String Fragment}

/-- Puts the items of every inline fragment in its place. -/
def dissolve : List Selection → List Selection
  | [] => []
  | .field alias? name arguments directives inner :: rest =>
    .field alias? name arguments directives (dissolve inner) :: dissolve rest
  | .inline _ _ inner :: rest => dissolve inner ++ dissolve rest
  | .spread name directives :: rest => .spread name directives :: dissolve rest

/-- No selection is a spread or an inline fragment, at any level. -/
def OnlyFields : List Selection → Prop
  | [] => True
  | .field _ _ _ _ inner :: rest => OnlyFields inner ∧ OnlyFields rest
  | .inline _ _ _ :: _ => False
  | .spread _ _ :: _ => False

/-- Selections without fragments that select the same fields. -/
def flat (fragments : OrderedMap String Fragment) (selections : List Selection) : List Selection :=
  dissolve (inlineSpreads fragments selections)

theorem onlyFields_append {selections others : List Selection} :
    OnlyFields (selections ++ others) ↔ OnlyFields selections ∧ OnlyFields others := by
  induction selections with
  | nil => simp [OnlyFields]
  | cons selection rest ih => cases selection <;> simp [OnlyFields, ih, and_assoc]

/-- Where nothing is spread, only fields are left when inline fragments are dissolved. -/
theorem onlyFields_dissolve : (selections : List Selection) → spreads selections = [] →
    OnlyFields (dissolve selections)
  | [], _ => by
    rw [dissolve, OnlyFields]
    trivial
  | .field _ _ _ _ inner :: rest, h => by
    rw [spreads, List.append_eq_nil_iff] at h
    rw [dissolve, OnlyFields]
    exact ⟨onlyFields_dissolve inner h.1, onlyFields_dissolve rest h.2⟩
  | .inline _ _ inner :: rest, h => by
    rw [spreads, List.append_eq_nil_iff] at h
    rw [dissolve, onlyFields_append]
    exact ⟨onlyFields_dissolve inner h.1, onlyFields_dissolve rest h.2⟩
  | .spread name _ :: rest, h => by
    rw [spreads] at h
    cases h

theorem count_pos (selection : Selection) : 0 < selection.count := by
  cases selection <;> simp [count]

theorem inlineSpreads_cons (selection : Selection) (rest : List Selection) :
    inlineSpreads fragments (selection :: rest) =
      inlineSpreads fragments [selection] ++ inlineSpreads fragments rest := by
  cases selection with
  | field | inline => simp [inlineSpreads]
  | spread name directives =>
    simp only [inlineSpreads]
    split <;> rfl

theorem inlineSpreads_spread {name : String} {directives : List Directive} {fragment : Fragment}
    (h : fragments.get? name = some fragment) :
    inlineSpreads fragments [.spread name directives] =
      [.inline (some fragment.condition) directives
        (inlineSpreads (fragments.erase name) fragment.selections)] := by
  simp only [inlineSpreads]
  split
  · next hnone => exact absurd (h.symm.trans hnone) (by simp)
  · next found hsome =>
    obtain rfl := Option.some.inj (h.symm.trans hsome)
    rfl

theorem spreads_append (selections others : List Selection) :
    spreads (selections ++ others) = spreads selections ++ spreads others := by
  induction selections with
  | nil => simp [spreads]
  | cons selection rest ih => cases selection <;> simp [spreads, ih]

end Selection

namespace SelectionTree

open Selection

variable {convert : ArgValue → Except SelectionError Json} {entered outside : List String}
  {fragments others : OrderedMap String Fragment}

theorem expand_append (selections more : List Selection) :
    expand convert entered fragments (selections ++ more) = (do
      let own ← expand convert entered fragments selections
      let trees ← expand convert entered fragments more
      pure (own ++ trees)) := by
  induction selections with
  | nil =>
    rw [List.nil_append, expand]
    cases expand convert entered fragments more <;> rfl
  | cons selection rest ih =>
    rw [List.cons_append, expand_cons, ih]
    conv_rhs => rw [expand_cons]
    cases expand convert entered fragments [selection] with
    | error e => rfl
    | ok own =>
      cases expand convert entered fragments rest with
      | error e => rfl
      | ok middle =>
        cases expand convert entered fragments more with
        | error e => rfl
        | ok last => exact congrArg Except.ok (List.append_assoc own middle last).symm

/-- Dissolving inline fragments does not change the trees of a selection set. -/
theorem expand_dissolve : (selections : List Selection) →
    expand convert entered fragments (dissolve selections) =
      expand convert entered fragments selections
  | [] => by rw [dissolve]
  | .field alias? name arguments directives inner :: rest => by
    rw [dissolve, expand_cons, expand_field, expand_dissolve inner, expand_dissolve rest]
    conv_rhs => rw [expand_cons, expand_field]
  | .inline condition directives inner :: rest => by
    rw [dissolve, expand_append, expand_dissolve inner, expand_dissolve rest]
    conv_rhs => rw [expand_cons, expand_inline]
  | .spread name directives :: rest => by
    rw [dissolve, expand_cons, expand_dissolve rest]
    conv_rhs => rw [expand_cons]

/-- Writing out the spreads of a selection set without failures leaves no spread and does not change
its trees, whatever was entered on the way. -/
theorem expand_inlineSpreads (entered : List String) (fragments : OrderedMap String Fragment) :
    (selections : List Selection) →
    failuresOf (expand convert entered fragments selections) = [] →
      spreads (inlineSpreads fragments selections) = [] ∧
        expand convert outside others (inlineSpreads fragments selections) =
          expand convert entered fragments selections
  | [], _ => by simp [inlineSpreads, spreads, expand]
  | selection :: rest, h => by
    obtain ⟨hown, hrest⟩ := failuresOf_expand_cons_eq_nil_iff.1 h
    obtain ⟨hnone, hsame⟩ := expand_inlineSpreads entered fragments rest hrest
    -- What holds of the first selection on its own carries over to the whole.
    suffices hfirst : spreads (inlineSpreads fragments [selection]) = [] ∧
        expand convert outside others (inlineSpreads fragments [selection]) =
          expand convert entered fragments [selection] by
      rw [inlineSpreads_cons, spreads_append, expand_append, expand_cons, hfirst.1, hfirst.2, hnone,
        hsame]
      exact ⟨rfl, rfl⟩
    cases hselection : selection with
    | field alias? name arguments directives inner =>
      rw [hselection, expand_field, failuresOf_singleton, failures_eq] at hown
      have hinner := (List.append_eq_nil_iff.1 hown).2
      obtain ⟨hnone, hsame⟩ := expand_inlineSpreads entered fragments inner hinner
      rw [inlineSpreads, inlineSpreads, expand_field, expand_field, hsame]
      exact ⟨by simp [spreads, hnone], rfl⟩
    | inline condition directives inner =>
      rw [hselection, expand_inline] at hown
      obtain ⟨hnone, hsame⟩ := expand_inlineSpreads entered fragments inner hown
      rw [inlineSpreads, inlineSpreads, expand_inline, expand_inline, hsame]
      exact ⟨by simp [spreads, hnone], rfl⟩
    | spread name directives =>
      rw [hselection] at hown
      by_cases hentered : name ∈ entered
      · rw [expand_spread_of_mem hentered] at hown
        cases hown
      · cases hget : fragments.get? name with
        | none =>
          rw [expand_spread_of_get?_eq_none hentered hget] at hown
          cases hown
        | some fragment =>
          rw [expand_spread_of_get?_eq_some hentered hget] at hown ⊢
          obtain ⟨hnone, hsame⟩ := expand_inlineSpreads (name :: entered) (fragments.erase name)
            fragment.selections hown
          rw [inlineSpreads_spread hget, expand_inline, hsame]
          exact ⟨by simp [spreads, hnone], rfl⟩
-- As in the expansion, a fragment that is entered leaves the fragments that may still be.
termination_by selections => Fragment.countAll fragments + Selection.countAll selections
decreasing_by
  all_goals simp only [Selection.countAll]
  · have hpos := Selection.count_pos selection
    omega
  all_goals rw [hselection, Selection.count]
  · omega
  · omega
  · have htaken := Fragment.countAll_erase_le hget
    omega

/-- A selection set without failures and its flat form have the same trees. -/
theorem expand_flat {selections : List Selection}
    (h : failuresOf (expand convert entered fragments selections) = []) :
    expand convert outside others (flat fragments selections) =
      expand convert entered fragments selections := by
  rw [flat, expand_dissolve]
  exact (expand_inlineSpreads entered fragments selections h).2

theorem onlyFields_flat {selections : List Selection}
    (h : failuresOf (expand convert entered fragments selections) = []) :
    OnlyFields (flat fragments selections) :=
  onlyFields_dissolve _ (@expand_inlineSpreads convert [] ∅ entered fragments selections h).1

end SelectionTree

/-! ### Flat documents -/

/-- An operation that selects the same fields without fragments. -/
def Operation.flatten (fragments : OrderedMap String Fragment) (operation : Operation) :
    Operation :=
  { operation with selections := Selection.flat fragments operation.selections }

/-- A document whose operations select the same fields without fragments. The fragments that are
defined beside them do not matter. -/
def Document.flatten (document : Document) (fragments : OrderedMap String Fragment) : Document where
  operations := match document.operations with
    | .anonymous operation => .anonymous (operation.flatten document.fragments)
    | .named operations => .named (operations.map (Operation.flatten document.fragments))
  fragments := fragments

variable {document : Document} {operation : Option String} {chosen : Operation}
  {bindings : Variables} {compiled : OrderedMap String CompiledQuery}

theorem Document.operation?_flatten {fragments : OrderedMap String Fragment}
    (h : document.operation? operation = .ok chosen) :
    (document.flatten fragments).operation? operation =
      .ok (chosen.flatten document.fragments) := by
  obtain ⟨operations, defined⟩ := document
  cases operations with
  | anonymous first =>
    simp only [operation?, Except.ok.injEq] at h
    simp only [flatten, operation?, h]
  | named operations =>
    cases operation with
    | some name =>
      simp only [operation?] at h
      simp only [flatten, operation?, OrderedMap.get?_map]
      cases hget : operations.get? name with
      | none =>
        rw [hget] at h
        cases h
      | some found =>
        rw [hget] at h
        cases h
        rfl
    | none =>
      simp only [operation?] at h
      simp only [flatten, operation?, OrderedMap.values_map]
      split at h
      · next found hvalues =>
        cases h
        rw [hvalues]
        rfl
      · cases h

/-- What a document compiles to is what its flat form does. -/
theorem Document.compile_flatten {fragments : OrderedMap String Fragment}
    (hchosen : document.operation? operation = .ok chosen)
    (h : document.compile operation bindings = .ok compiled) :
    (document.flatten fragments).compile operation bindings = .ok compiled := by
  have hnil := (exists_compile_eq_ok_iff hchosen).1 ⟨compiled, h⟩
  have hroots : (document.flatten fragments).roots (chosen.flatten document.fragments) bindings =
      document.roots chosen bindings := SelectionTree.expand_flat hnil
  rw [compile_eq_ok_iff (operation?_flatten hchosen), hroots]
  exact (compile_eq_ok_iff hchosen).1 h

/-- A request that compiles, and any request that reads as its flat form, compile to the same
queries: the same response keys in the same order, with the same filters and the same sorts. The
flat form of the operation that is compiled selects nothing but fields. -/
theorem compileRequest_flatten {text : String}
    (h : compileRequest text operation bindings = .ok compiled) :
    ∃ document chosen, Document.parse text = .ok document ∧
      document.operation? operation = .ok chosen ∧
      Selection.OnlyFields (chosen.flatten document.fragments).selections ∧
      ∀ fragments, (document.flatten fragments).operation? operation =
          .ok (chosen.flatten document.fragments) ∧
        (document.flatten fragments).compile operation bindings = .ok compiled ∧
        ∀ other, Document.parse other = .ok (document.flatten fragments) →
          compileRequest other operation bindings = .ok compiled := by
  obtain ⟨roots, hroots, -, -⟩ := compileRequest_eq_ok_iff.1 h
  obtain ⟨document, hparse, chosen, hchosen, -⟩ := requestRoots_eq_ok_iff.1 hroots
  rw [compileRequest_eq_compile hparse] at h
  have hnil := (Document.exists_compile_eq_ok_iff hchosen).1 ⟨compiled, h⟩
  refine ⟨document, chosen, hparse, hchosen, SelectionTree.onlyFields_flat hnil,
    fun fragments => ⟨Document.operation?_flatten hchosen, Document.compile_flatten hchosen h,
      fun other hother => ?_⟩⟩
  rw [compileRequest_eq_compile hother]
  exact Document.compile_flatten hchosen h

/-- A request that spreads a fragment inside a field of another one. -/
def nestedFragmentsRequest : String :=
  "\x7b users \x7b name ...Extra ... on User \x7b email \x7d \x7d \x7d" ++
    " fragment Extra on User \x7b age(gt: 5) home \x7b ...Town \x7d \x7d" ++
    " fragment Town on Address \x7b city(ne: null) \x7d"

/-- The same fields without any fragment. -/
def unnestedFragmentsRequest : String :=
  "\x7b users \x7b name age(gt: 5) home \x7b city(ne: null) \x7d email \x7d \x7d"

theorem compileRequest_flatten_nestedFragments : ∃ compiled document chosen,
    compileRequest nestedFragmentsRequest none ∅ = .ok compiled ∧ compiled.keys = ["users"] ∧
      Document.parse nestedFragmentsRequest = .ok document ∧
      document.operation? none = .ok chosen ∧
      Selection.OnlyFields (chosen.flatten document.fragments).selections ∧
      (document.flatten ∅).compile none ∅ = .ok compiled := by
  have hcheck : ((compileRequest nestedFragmentsRequest none ∅).toOption.any fun compiled =>
      decide (compiled.keys = ["users"])) = true := by
    decide +kernel
  obtain ⟨compiled, hok, hkeys⟩ := exists_eq_ok_of_any hcheck
  obtain ⟨document, chosen, hparse, hchosen, hflat, hsame⟩ := compileRequest_flatten hok
  exact ⟨compiled, document, chosen, hok, of_decide_eq_true hkeys, hparse, hchosen, hflat,
    (hsame ∅).2.1⟩

example : (compileRequest unnestedFragmentsRequest none ∅).toOption.map
      (OrderedMap.map CompiledQuery.filter) =
    (compileRequest nestedFragmentsRequest none ∅).toOption.map
      (OrderedMap.map CompiledQuery.filter) := by
  decide +kernel

end ModelGraph
