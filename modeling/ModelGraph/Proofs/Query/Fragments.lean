import ModelGraph.Proofs.Query.Predicates
import ModelGraph.Proofs.Request.Descent

/-!
# Fragments in compiled requests

Once a request is parsed and its operation picked, the only thing that can go wrong is a spread that
cannot be followed. How often a fragment is spread does not matter, as long as it never leads back
to itself.

## Main definitions

- `Document.compile` — the queries of a parsed request

## Main statements

- `compileRequest_fragments` — which requests compile
-/

namespace ModelGraph

open SelectionTree

/-- The queries of the root fields of an operation, by response key. -/
def Document.compile (document : Document) (operation : Option String) (bindings : Variables) :
    Except RequestError (OrderedMap String CompiledQuery) := do
  let chosen ← (document.operation? operation).mapError .operation
  let roots ← (document.roots chosen bindings).mapError .selection
  (compileRoots roots ∅).mapError .selection

section Document

variable {text : String} {document : Document} {operation : Option String} {chosen : Operation}
  {bindings : Variables} {compiled : OrderedMap String CompiledQuery}

theorem compileRequest_eq_compile (hparse : Document.parse text = .ok document) :
    compileRequest text operation bindings = document.compile operation bindings := by
  rw [compileRequest, requestRoots, hparse, Document.compile]
  change ((document.operation? operation).mapError RequestError.operation >>= fun chosen =>
    (document.roots chosen bindings).mapError RequestError.selection) >>= _ = _
  rw [bind_assoc]

/-- A root fails to compile with one of its failures. -/
theorem exists_mem_failures_of_compileRoots {roots : List SelectionTree}
    {done : OrderedMap String CompiledQuery} {e : SelectionError}
    (h : compileRoots roots done = .error e) : ∃ root ∈ roots, e ∈ root.failures := by
  induction roots generalizing done with
  | nil => cases h
  | cons root rest ih =>
    rw [compileRoots] at h
    cases hroot : root.compile with
    | error own =>
      rw [hroot] at h
      cases h
      refine ⟨root, List.mem_cons_self .., ?_⟩
      rw [SelectionTree.compile, compileFilter_eq, compileSort_eq] at hroot
      cases hfailures : root.failures with
      | nil =>
        rw [hfailures] at hroot
        cases hroot
      | cons first others =>
        rw [hfailures] at hroot
        cases hroot
        exact List.mem_cons_self ..
    | ok query =>
      rw [hroot] at h
      obtain ⟨other, hother, he⟩ := ih h
      exact ⟨other, List.mem_cons_of_mem _ hother, he⟩

namespace Document

variable (hchosen : document.operation? operation = .ok chosen)
include hchosen

theorem compile_eq_ok_iff : document.compile operation bindings = .ok compiled ↔
    ∃ roots, document.roots chosen bindings = .ok roots ∧
      (∀ root ∈ roots, root.failures = []) ∧
        .ofList (roots.map fun root => (root.responseKey, root.query)) = compiled := by
  simp only [compile, hchosen, bind_eq_ok_iff, mapError_eq_ok_iff, compileRoots_eq_ok_iff,
    Except.ok.injEq, exists_eq_left']
  rfl

/-- What a request is refused for is among the failures of its roots. -/
theorem exists_mem_failuresOf {error : RequestError}
    (h : document.compile operation bindings = .error error) :
    ∃ e, error = .selection e ∧ e ∈ failuresOf (document.roots chosen bindings) := by
  rw [compile, hchosen] at h
  change ((document.roots chosen bindings).mapError RequestError.selection >>= fun roots =>
    (compileRoots roots ∅).mapError RequestError.selection) = _ at h
  cases hroots : document.roots chosen bindings with
  | error e =>
    rw [hroots] at h
    cases h
    exact ⟨e, rfl, List.mem_singleton_self e⟩
  | ok roots =>
    rw [hroots] at h
    change (compileRoots roots ∅).mapError RequestError.selection = _ at h
    cases hcompile : compileRoots roots ∅ with
    | error e =>
      rw [hcompile] at h
      cases h
      obtain ⟨root, hroot, he⟩ := exists_mem_failures_of_compileRoots hcompile
      exact ⟨e, rfl, mem_failuresOf_of_mem hroot he⟩
    | ok compiled =>
      rw [hcompile] at h
      cases h

/-- A request compiles when nothing fails in its roots. -/
theorem exists_compile_eq_ok_iff : (∃ compiled, document.compile operation bindings = .ok compiled) ↔
    failuresOf (document.roots chosen bindings) = [] := by
  simp only [compile_eq_ok_iff hchosen]
  constructor
  · rintro ⟨_, roots, hroots, hread, -⟩
    rw [hroots, failuresOf_eq_nil_iff]
    intro root hroot
    obtain ⟨field, -, htree⟩ := exists_selects_of_mem [] document.fragments chosen.selections
      (IsLeft.start _) hroots hroot
    rw [argumentsError?, htree.arguments_eq, convertAll_ok]
    exact ⟨rfl, hread root hroot⟩
  · intro hnil
    cases hroots : document.roots chosen bindings with
    | error e =>
      rw [hroots] at hnil
      cases hnil
    | ok roots =>
      rw [hroots] at hnil
      exact ⟨_, roots, rfl, fun root hroot => (failuresOf_eq_nil_iff.1 hnil root hroot).2, rfl⟩

end Document

/-- A request whose operation is found is refused exactly where a descent from the selections of the
operation is, and for what such a descent is refused for; descents that enter no fragment twice are
bounded. Otherwise it compiles, and it does whenever no fragment that it invokes is unknown or
invokes itself, however often each of them is spread. -/
theorem compileRequest_fragments (hparse : Document.parse text = .ok document)
    (hchosen : document.operation? operation = .ok chosen) :
    (∀ steps, List.IsChain (Descent.Step document.fragments) (.start chosen.selections :: steps) →
      (∀ next ∈ steps, next.entered.Nodup) →
        steps.length ≤
          Fragment.countAll document.fragments + Selection.countAll chosen.selections) ∧
    (∀ error, compileRequest text operation bindings = .error error → ∃ e, error = .selection e ∧
      Descent.Refused document.fragments (.start chosen.selections) e) ∧
    ((∃ e, compileRequest text operation bindings = .error (.selection e)) ↔
      ∃ e, Descent.Refused document.fragments (.start chosen.selections) e) ∧
    ((∃ compiled, compileRequest text operation bindings = .ok compiled) ↔
      ∀ name, Invokes document.fragments chosen.selections name →
        ¬ IsFaulty document.fragments name) := by
  have hconvert : ∀ arguments, ∃ converted,
      convertAll (fun value => .ok (value.toJson bindings)) arguments = .ok converted :=
    fun arguments => ⟨_, convertAll_ok bindings arguments⟩
  rw [compileRequest_eq_compile hparse]
  have hrefused : ∀ error, document.compile operation bindings = .error error →
      ∃ e, error = .selection e ∧
        Descent.Refused document.fragments (.start chosen.selections) e := by
    intro error herror
    obtain ⟨e, rfl, he⟩ := Document.exists_mem_failuresOf hchosen herror
    exact ⟨e, rfl, Descent.refused_of_mem_failuresOf hconvert [] _ _ (IsLeft.start _) he⟩
  have hok : (∃ compiled, document.compile operation bindings = .ok compiled) ↔
      ¬ ∃ e, Descent.Refused document.fragments (.start chosen.selections) e := by
    rw [Document.exists_compile_eq_ok_iff hchosen]
    exact Descent.failuresOf_expand_eq_nil_iff_not_refused hconvert
  refine ⟨fun steps hsteps hnew => Descent.length_le hsteps hnew (IsLeft.start _), hrefused,
    ⟨?_, ?_⟩, ?_⟩
  · rintro ⟨e, he⟩
    obtain ⟨e', -, h⟩ := hrefused _ he
    exact ⟨e', h⟩
  · intro hsome
    cases hresult : document.compile operation bindings with
    | error error =>
      obtain ⟨e, rfl, -⟩ := hrefused error hresult
      exact ⟨e, rfl⟩
    | ok compiled => exact absurd hsome (hok.1 ⟨compiled, hresult⟩)
  · rw [hok, Descent.exists_refused_iff]
    simp only [not_exists, not_and]

end Document

/-- A request that spreads three fragments nine times, one of them inside another one. -/
def sharedFragmentsRequest : String :=
  "\x7b users \x7b ...Name friends \x7b ...Name ...Homes \x7d ...Name \x7d" ++
    " posts \x7b author \x7b ...Homes ... on User \x7b ...Name ...City \x7d \x7d \x7d \x7d" ++
    " fragment Name on User \x7b first(ne: null) last \x7d" ++
    " fragment Homes on User \x7b home \x7b ...City \x7d away \x7b ...City \x7d \x7d" ++
    " fragment City on Address \x7b city(sort: desc) \x7d"

/-- A request whose fragments lead back to the first one through two fields. -/
def circularFragmentsRequest : String :=
  "\x7b users \x7b ...Circle \x7d \x7d" ++
    " fragment Circle on User \x7b friends \x7b ... on User \x7b ...Chief \x7d \x7d \x7d" ++
    " fragment Chief on User \x7b chief \x7b ...Circle \x7d \x7d"

theorem compileRequest_sharedFragments :
    (∃ document chosen, Document.parse sharedFragmentsRequest = .ok document ∧
      document.operation? none = .ok chosen ∧
      (∃ compiled, compileRequest sharedFragmentsRequest none ∅ = .ok compiled) ∧
      ∀ name, Invokes document.fragments chosen.selections name →
        ¬ IsFaulty document.fragments name) ∧
    ∃ document chosen, Document.parse circularFragmentsRequest = .ok document ∧
      document.operation? none = .ok chosen ∧
      (∃ e, compileRequest circularFragmentsRequest none ∅ = .error (.selection e)) ∧
      ∃ name, Invokes document.fragments chosen.selections name ∧
        IsFaulty document.fragments name := by
  refine ⟨?_, ?_⟩
  · have hcheck : ((Document.parse sharedFragmentsRequest).toOption.any fun document =>
        (document.operation? none).toOption.any fun _ => (document.compile none ∅).isOk) = true := by
      decide +kernel
    obtain ⟨document, hparse, hcheck⟩ := exists_eq_ok_of_any hcheck
    obtain ⟨chosen, hchosen, hok⟩ := exists_eq_ok_of_any hcheck
    obtain ⟨compiled, hcompile⟩ := exists_eq_ok hok
    rw [← compileRequest_eq_compile hparse] at hcompile
    obtain ⟨-, -, -, hiff⟩ := @compileRequest_fragments _ _ _ _ ∅ hparse hchosen
    exact ⟨document, chosen, hparse, hchosen, ⟨compiled, hcompile⟩, hiff.1 ⟨compiled, hcompile⟩⟩
  · have hcheck : ((Document.parse circularFragmentsRequest).toOption.any fun document =>
        (document.operation? none).toOption.any fun _ => !(document.compile none ∅).isOk) = true := by
      decide +kernel
    obtain ⟨document, hparse, hcheck⟩ := exists_eq_ok_of_any hcheck
    obtain ⟨chosen, hchosen, hfails⟩ := exists_eq_ok_of_any hcheck
    obtain ⟨-, hrefused, hiff, -⟩ := @compileRequest_fragments _ _ _ _ ∅ hparse hchosen
    rw [← compileRequest_eq_compile hparse] at hfails
    cases hresult : compileRequest circularFragmentsRequest none ∅ with
    | ok compiled =>
      rw [hresult] at hfails
      cases hfails
    | error error =>
      obtain ⟨e, rfl, he⟩ := hrefused error hresult
      exact ⟨document, chosen, hparse, hchosen, ⟨e, rfl⟩, Descent.exists_refused_iff.1 ⟨e, he⟩⟩

end ModelGraph
