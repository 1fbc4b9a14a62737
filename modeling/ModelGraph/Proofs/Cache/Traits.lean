import ModelGraph.Proofs.Cache.Identity
import ModelGraph.Proofs.Graph.Furnished

/-!
# What all types in shared caches have in common

A property that every run gives to its roots, and one that it gives to its other types, are passed on
to whatever callers leave in caches that they share, and to all graphs that they get. Roots are given
other marks on the way, so their property may not depend on marks. In these graphs every model
stands under the sanitized name of a model, and every other type under its own name.

## Main definitions

- `Traits` — properties that every run gives to what it makes
- `ModelTypes.Bear`, `TypeGraph.Bear`, `Caches.Bear` — what has only roots and types with properties

## Main statements

- `Traits.bear_of_build` — what a run builds has the properties when what it reuses has them
- `Traits.bear_of_synthesizeCached` — so have all graphs that callers get
-/

namespace ModelGraph

/-- Properties that every run gives to its roots and to its other types, and that changing a mark
does not take away. -/
structure Traits (P : ObjectType → Prop) (Q : NamedType → Prop) : Prop where
  roots : ∀ (run : Run) (models : List ModelDecl), (run.layOut models).settled.roots.All P
  types : ∀ (run : Run) (models : List ModelDecl), (run.layOut models).settled.namedTypes.All Q
  mark : ∀ (root : ObjectType) (mark : Option Identity), P root → P { root with identity := mark }

section Bear

variable (P : ObjectType → Prop) (Q : NamedType → Prop)

/-- The types of a model, of which the root has one property and the others have the other one. -/
structure ModelTypes.Bear (types : ModelTypes) : Prop where
  root : P types.root.value
  dependents : ∀ dependent ∈ types.dependents, Q dependent.value

/-- A graph whose roots stand under sanitized names and have one property, and whose other types
stand under their own names and have the other one. -/
structure TypeGraph.Bear (graph : TypeGraph) : Prop where
  names : ∀ name ∈ graph.models.keys, ∃ model, name = Naming.sanitize model
  models : graph.models.All fun root => P root.value
  types : ∀ name type, graph.types.get? name = some type → Q type.value ∧ type.value.name = name

/-- Caches of such types and graphs. -/
structure Caches.Bear (caches : Caches) : Prop where
  types : caches.types.Holds fun _ types => types.Bear P Q
  schemas : caches.schemas.Holds fun _ graph => graph.value.Bear P Q

end Bear

/-- Placing models adds sanitized names only. -/
theorem Run.mem_keys_foldl_place {reused : OrderedMap String ModelTypes} {models : List ModelDecl}
    {roots placed : OrderedMap String (Shared ObjectType)}
    {types : OrderedMap String (Shared NamedType)} {name : String}
    (h : name ∈ (models.foldl (place reused) (roots, placed, types)).2.1.keys) :
    name ∈ placed.keys ∨ ∃ model, name = Naming.sanitize model := by
  induction models generalizing roots placed types with
  | nil => exact .inl h
  | cons model rest ih =>
    rw [List.foldl_cons, place] at h
    have hinsert : ∀ root : Shared ObjectType,
        name ∈ (placed.insert (Naming.sanitize model.name) root).keys →
          name ∈ placed.keys ∨ ∃ model, name = Naming.sanitize model := fun _ hname =>
      (OrderedMap.mem_keys_insert.1 hname).symm.imp_right fun heq => ⟨model.name, heq⟩
    cases hroot : roots.get? (Naming.sanitize model.name) with
    | some root =>
      simp only [hroot] at h
      exact (ih h).elim (hinsert root) .inr
    | none =>
      cases hcached : reused.get? model.name with
      | none =>
        simp only [hroot, hcached] at h
        exact ih h
      | some cached =>
        simp only [hroot, hcached] at h
        exact (ih h).elim (hinsert cached.root) .inr

namespace Traits

variable {P : ObjectType → Prop} {Q : NamedType → Prop} {run : Run}

/-! ### One call -/

/-- The roots and types of a graph are new or reused. -/
theorem bear_of_assemble (traits : Traits P Q) {entries : List (ModelDecl × Option ModelTypes)}
    {graph : TypeGraph} {fresh : List ModelTypes} (hok : run.assemble entries = .ok (graph, fresh))
    (hentries : ∀ model types, (model, some types) ∈ entries → types.Bear P Q) :
    graph.Bear P Q ∧ ∀ types ∈ fresh, types.Bear P Q := by
  let Own (name : String) (type : Shared NamedType) : Prop :=
    Q type.value ∧ type.value.name = name
  have hnew : ∀ name type,
      (run.share .type (run.layOut (Run.freshOf entries)).settled.namedTypes).get? name = some type →
        Own name type := by
    intro name type hget
    rw [Run.get?_share] at hget
    obtain ⟨value, hvalue, rfl⟩ := Option.map_eq_some_iff.1 hget
    exact ⟨traits.types run _ name value hvalue, Run.name_of_namedTypes hvalue⟩
  obtain ⟨-, hmodels, htypes, hfresh⟩ := run.all_of_assemble
    (P := fun root => P root.value) (Q := Own) hok
    (fun name root hget => (run.all_share (traits.roots run _) .root name root hget).1) hnew
    fun model types hmem dependent hdependent =>
      ⟨(hentries model types hmem).dependents dependent hdependent, rfl⟩
  refine ⟨⟨fun name hname => ?_, fun name root hget => ?_, htypes⟩, fun types hmem => ?_⟩
  · obtain ⟨arena, -, hassemble⟩ := bind_eq_ok_iff.1 hok
    obtain ⟨-, -, hfinish⟩ := bind_eq_ok_iff.1 hassemble
    obtain ⟨rfl, -⟩ := Prod.mk.inj (Except.ok.inj hfinish)
    exact (Run.mem_keys_foldl_place hname).resolve_left List.not_mem_nil
  · rcases hmodels name root hget with hroot | ⟨model, types, hmem, rfl⟩
    · exact hroot
    · exact (hentries model types hmem).root
  · obtain ⟨hroot, hdependents⟩ := hfresh types hmem
    refine ⟨hroot, fun dependent hdependent => ?_⟩
    obtain ⟨name, htrait, -⟩ := hdependents dependent hdependent
    exact htrait

/-- What models reuse was stored, maybe with another mark. -/
theorem bear_reuseAll (traits : Traits P Q) {types : AnyLayer ModelTypes} (now : Nat)
    (h : types.Holds fun _ types => types.Bear P Q) (models : List ModelDecl) :
    (∀ model found, (model, some found) ∈ (run.reuseAll now 0 models types).1 → found.Bear P Q) ∧
      (run.reuseAll now 0 models types).2.Holds fun _ types => types.Bear P Q := by
  have hfound : ∀ {key found}, run.FoundIn types key found → found.Bear P Q := by
    intro key found hfound
    rcases hfound with hstored | ⟨cached, hstored, hrebinds⟩
    · exact CacheLayer.holds_iff.1 h key found hstored
    · have hcached := CacheLayer.holds_iff.1 h key cached hstored
      refine ⟨?_, ?_⟩
      · rw [hrebinds.root]
        exact traits.mark _ _ hcached.root
      · rw [hrebinds.dependents]
        exact hcached.dependents
  obtain ⟨hentries, hholds⟩ := Run.found_reuseAll now
    (CacheLayer.holds_iff.2 fun _ _ hstored => .inl hstored :
      types.Holds (run.FoundIn types)) 0 models
  exact ⟨fun model found hmem => hfound (hentries model found hmem).2.1,
    hholds.imp fun _ _ => hfound⟩

/-- A graph that is built has the properties, and so has all that is stored meanwhile. -/
theorem bear_of_build (traits : Traits P Q) {types : AnyLayer ModelTypes} (now : Nat)
    (h : types.Holds fun _ types => types.Bear P Q) (models : List ModelDecl) :
    (∀ graph, (run.build now models types).1 = .ok graph → graph.Bear P Q) ∧
      (run.build now models types).2.Holds fun _ types => types.Bear P Q := by
  obtain ⟨hentries, hholds⟩ := traits.bear_reuseAll now h models
  rw [Run.build]
  cases checkKeys [] models with
  | error e => exact ⟨fun _ hok => (by cases hok), h⟩
  | ok =>
    dsimp only
    cases hassemble : run.assemble (run.reuseAll now 0 models types).1 with
    | error e => exact ⟨fun _ hok => (by cases hok), hholds⟩
    | ok result =>
      obtain ⟨graph, fresh⟩ := result
      obtain ⟨hgraph, hfresh⟩ := traits.bear_of_assemble hassemble hentries
      refine ⟨fun other hok => ?_, hholds.foldl_set now (Run.typesKey models) id hfresh⟩
      obtain ⟨_, -, rfl⟩ := map_eq_ok_iff.1 hok
      exact hgraph

/-! ### Shared caches -/

variable {caches : Caches}

/-- A call gets a graph with the properties, and leaves no other types behind. -/
theorem bear_synthesizeCached (traits : Traits P Q) (h : caches.Bear P Q) (run : Run) (now : Nat)
    (models : List ModelDecl) :
    (∀ graph, (run.synthesizeCached now models caches).1 = .ok graph → graph.value.Bear P Q) ∧
      (run.synthesizeCached now models caches).2.Bear P Q := by
  obtain ⟨hgraph, htypes⟩ := traits.bear_of_build now h.types models
  obtain ⟨hresult, hschemas, htypes⟩ := run.found_or_built now models
    (Q := fun types => types.Holds fun _ types => types.Bear P Q) h.schemas h.types htypes hgraph
  refine ⟨fun graph hok => ?_, htypes, hschemas⟩
  rcases hresult with heq | ⟨value, heq, -, hbears⟩
  · obtain ⟨value, hvalue, rfl⟩ := map_eq_ok_iff.1 (heq.symm.trans hok)
    exact hgraph value hvalue
  · obtain rfl := Except.ok.inj (heq.symm.trans hok)
    exact hbears

theorem bear_perform (traits : Traits P Q) (h : caches.Bear P Q) (event : Caches.Event) :
    (caches.perform event).Bear P Q := by
  cases event with
  | synthesize run now models => exact (traits.bear_synthesizeCached h run now models).2
  | expire now => exact ⟨h.types.purge now, h.schemas.purge now⟩

theorem bear_after (traits : Traits P Q) (h : caches.Bear P Q) (events : List Caches.Event) :
    (caches.after events).Bear P Q := by
  induction events generalizing caches with
  | nil => exact h
  | cons event rest ih => exact ih (traits.bear_perform h event)

/-- Whatever callers did to caches that they share, a call gets a graph with the properties that all
runs give to what they make. -/
theorem bear_of_synthesizeCached (traits : Traits P Q) {start : Caches} (hstart : start.Empty)
    (events : List Caches.Event) {now : Nat} {models : List ModelDecl} {graph : Shared TypeGraph}
    (h : (run.synthesizeCached now models (start.after events)).1 = .ok graph) :
    graph.value.Bear P Q := by
  have hempty : start.Bear P Q :=
    ⟨hstart.types.imp fun _ _ => False.elim, hstart.schemas.imp fun _ _ => False.elim⟩
  exact (traits.bear_synthesizeCached (traits.bear_after hempty events) run now models).1 graph h

end Traits

end ModelGraph
