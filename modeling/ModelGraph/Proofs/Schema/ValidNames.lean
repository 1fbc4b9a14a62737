import ModelGraph.Proofs.Cache.Traits
import ModelGraph.Proofs.Graph.Spelled
import ModelGraph.Schema.Basic

/-!
# Valid names in shared graphs

Every run gives valid names to its roots and types, so all names in the graphs that callers get from
shared caches are valid, wherever the types come from. The root fields of a model are named after it,
with its first letter in lower case.

## Main definitions

- `TypeGraph.names` — all names in a graph

## Main statements

- `Run.valid_names_of_synthesizeCached` — all names in the graphs that callers get are valid
-/

namespace ModelGraph

open Naming (IsName sanitize)

/-- All names in a graph: those that its types stand under, and those in the types. -/
def TypeGraph.names (graph : TypeGraph) : List String :=
  graph.models.keys ++ graph.types.keys
    ++ (graph.models.values.flatMap fun root => root.value.names)
    ++ graph.types.values.flatMap fun type => type.value.names

/-- Every run gives valid names to its roots and types, and marks are no names. -/
theorem Run.valid_traits : Traits (fun root => ∀ name ∈ root.names, IsName name)
    fun type => ∀ name ∈ type.names, IsName name where
  roots _ _ _ _ := isName_root
  types _ _ _ _ := isName_type
  mark _ _ h := h

section Bear

variable {graph : TypeGraph} (h : graph.Bear (fun root => ∀ name ∈ root.names, IsName name)
  fun type => ∀ name ∈ type.names, IsName name)

include h

theorem TypeGraph.Bear.isName_root {root : Shared ObjectType} (hroot : root ∈ graph.models.values) :
    ∀ name ∈ root.value.names, IsName name := by
  obtain ⟨name, hget⟩ := OrderedMap.mem_values_iff.1 hroot
  exact h.models name root hget

/-- Types stand under names of models, rewritten, or under their own names. -/
theorem TypeGraph.Bear.isName : ∀ name ∈ graph.names, IsName name := by
  rw [TypeGraph.names]
  refine List.forall_mem_append.2 ⟨List.forall_mem_append.2 ⟨List.forall_mem_append.2
    ⟨fun name hname => ?_, fun name hname => ?_⟩, fun name hname => ?_⟩, fun name hname => ?_⟩
  · obtain ⟨model, rfl⟩ := h.names name hname
    exact Naming.isName_sanitize model
  · obtain ⟨type, hget⟩ := OrderedMap.mem_keys_iff.1 hname
    obtain ⟨hvalid, rfl⟩ := h.types name type hget
    refine hvalid _ ?_
    cases type.value <;> exact List.mem_cons_self ..
  · obtain ⟨root, hroot, hname⟩ := List.mem_flatMap.1 hname
    exact h.isName_root hroot name hname
  · obtain ⟨type, htype, hname⟩ := List.mem_flatMap.1 hname
    obtain ⟨key, hget⟩ := OrderedMap.mem_values_iff.1 htype
    exact (h.types key type hget).1 name hname

end Bear

/-- Whatever callers did to caches that they share and whatever names models declare, a call gets a
graph in which all names are valid, and so are those of its root fields. Rewriting leaves just the
valid names alone, so rewriting twice is rewriting once. -/
theorem Run.valid_names_of_synthesizeCached {start : Caches} (hstart : start.Empty)
    (events : List Caches.Event) {run : Run} {now : Nat} {models : List ModelDecl}
    {graph : Shared TypeGraph}
    (h : (run.synthesizeCached now models (start.after events)).1 = .ok graph) :
    (∀ name ∈ graph.value.names, IsName name) ∧
    (∀ root ∈ graph.value.models.values, IsName (Schema.manyField root.value).name ∧
      IsName (Schema.byIdField root.value).name) ∧
    ∀ text, (sanitize text = text ↔ IsName text) ∧ sanitize (sanitize text) = sanitize text := by
  have hbears := Run.valid_traits.bear_of_synthesizeCached hstart events h
  refine ⟨hbears.isName, fun root hroot => ?_, fun text =>
    ⟨Naming.sanitize_eq_self_iff, Naming.sanitize_sanitize text⟩⟩
  have hname : IsName root.value.name := hbears.isName_root hroot _ (List.mem_cons_self ..)
  exact ⟨hname.lowerFirst.append rfl, hname.lowerFirst.append rfl⟩

/-- A model with names beyond ASCII, an empty one, and ones that open with digits. -/
def ModelDecl.street : ModelDecl where
  key := "streets"
  name := "straße"
  fields := [.nested "" [.enumeration "1st" ["é", "", "in-progress"]],
    .list "ŉ2" (.embedded "ǆ" [.scalar "x" .string]), .references "ﬁrst neighbours" "straße"]

/-- A street, which another caller has asked for before, is given valid names. -/
theorem Run.valid_names_street :
    let caches := (Caches.ofSettings 0 {}).after
      [.synthesize (Run.mk {} ⟨0⟩ 0) 0 [.street], .expire 5]
    ∃ graph, ((Run.mk {} ⟨1⟩ 1).synthesizeCached 10 [.street] caches).1 = .ok graph ∧
      graph.value.models.keys = ["stra_e"] ∧
      graph.value.types.keys =
        ["stra_e_rst_neighboursConnection", "_Input", "_", "stra_e_", "stra_e__1stEnum"] ∧
      (∀ name ∈ graph.value.names, IsName name) ∧
      ∀ root ∈ graph.value.models.values, IsName (Schema.manyField root.value).name ∧
        IsName (Schema.byIdField root.value).name := by
  intro caches
  let result := ((Run.mk {} ⟨1⟩ 1).synthesizeCached 10 [.street] caches).1
  obtain ⟨graph, hok, hcheck⟩ : ∃ graph, result = .ok graph ∧ decide (
      graph.value.models.keys = ["stra_e"] ∧ graph.value.types.keys =
        ["stra_e_rst_neighboursConnection", "_Input", "_", "stra_e_", "stra_e__1stEnum"]) = true :=
    exists_eq_ok_of_any (by decide +kernel)
  obtain ⟨hmodels, htypes⟩ := of_decide_eq_true hcheck
  obtain ⟨hnames, hroots, -⟩ := Run.valid_names_of_synthesizeCached (Caches.empty_ofSettings 0 {})
    [.synthesize (Run.mk {} ⟨0⟩ 0) 0 [.street], .expire 5] hok
  exact ⟨graph, hok, hmodels, htypes, hnames, hroots⟩

end ModelGraph
