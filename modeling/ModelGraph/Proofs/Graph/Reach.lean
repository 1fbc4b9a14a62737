import ModelGraph.Graph.Synthesis
import ModelGraph.Proofs.OrderedMap

/-!
# The types that are found from a root

The search for the types of a root finds every type that can be reached by following mentioned
names, and no other one.

## Main definitions

- `Reaches` — names that are reached from others

## Main statements

- `mem_dependentsOf_iff` — the dependents of a root are the types it reaches
-/

namespace ModelGraph

/-- The names that are reached from others by following what types mention. -/
inductive Reaches (find : String → Option NamedType) (start : List String) : String → Prop
  | start {name : String} : name ∈ start → Reaches find start name
  | step {name next : String} {type : NamedType} : Reaches find start name →
      find name = some type → next ∈ type.mentions → Reaches find start next

namespace Reaches

variable {find larger : String → Option NamedType} {start more : List String} {name : String}

/-- More is reached from more names through more types. -/
theorem mono (h : Reaches find start name)
    (hfind : ∀ name type, find name = some type → larger name = some type)
    (hstart : ∀ name ∈ start, Reaches larger more name) : Reaches larger more name := by
  induction h with
  | start hmem => exact hstart _ hmem
  | step _ hget hnext ih => exact .step ih (hfind _ _ hget) hnext

/-- A property that is passed on to mentioned names holds of all that is reached. -/
theorem closed {P : String → Prop} (h : Reaches find start name) (hstart : ∀ name ∈ start, P name)
    (hstep : ∀ name type, P name → find name = some type → ∀ next ∈ type.mentions, P next) :
    P name := by
  induction h with
  | start hmem => exact hstart _ hmem
  | step _ hget hnext ih => exact hstep _ _ ih hget _ hnext

/-- A name that stands for nothing leads nowhere. -/
theorem skip {first : String} {rest : List String} (h : Reaches find (first :: rest) name)
    (hfirst : find first = none) : name = first ∨ Reaches find rest name := by
  induction h with
  | start hmem => exact (List.mem_cons.1 hmem).imp_right .start
  | step _ hget hnext ih =>
    rcases ih with rfl | hrest
    · rw [hfirst] at hget
      cases hget
    · exact .inr (.step hrest hget hnext)

/-- What is reached through a name is reached from the names that its type mentions, without coming
back to it. -/
theorem visit {first : String} {rest : List String} {type : NamedType}
    (h : Reaches find (first :: rest) name) (hfirst : find first = some type)
    (herased : ∀ name, name ≠ first → larger name = find name) :
    name = first ∨ Reaches larger (type.mentions.reverse ++ rest) name := by
  induction h with
  | start hmem =>
    rcases List.mem_cons.1 hmem with rfl | hmem
    · exact .inl rfl
    · exact .inr (.start (List.mem_append_right _ hmem))
  | @step name next other _ hget hnext ih =>
    by_cases hname : name = first
    · subst hname
      rw [hfirst, Option.some.injEq] at hget
      subst hget
      exact .inr (.start (List.mem_append_left _ (List.mem_reverse.2 hnext)))
    · exact .inr (.step (ih.resolve_left hname) ((herased name hname).trans hget) hnext)

end Reaches

/-- The type of a name among shared types. -/
def typeOf? (types : OrderedMap String (Shared NamedType)) (name : String) : Option NamedType :=
  (types.get? name).map Shared.value

theorem typeOf?_erase (types : OrderedMap String (Shared NamedType)) (first name : String) :
    typeOf? (types.erase first) name = if first = name then none else typeOf? types name := by
  rw [typeOf?, OrderedMap.get?_erase]
  split <;> rfl

/-- A name that stands for nothing is passed over. -/
theorem reachable_skip {unseen : OrderedMap String (Shared NamedType)} {first : String}
    (hfirst : unseen.get? first = none) (rest : List String) :
    reachable unseen (first :: rest) = reachable unseen rest := by
  rw [reachable]
  split
  · rfl
  · next hfound =>
    rw [hfirst] at hfound
    cases hfound

/-- A name that stands for a type is visited before the rest. -/
theorem reachable_visit {unseen : OrderedMap String (Shared NamedType)} {first : String}
    {found : Shared NamedType} (hfirst : unseen.get? first = some found) (rest : List String) :
    reachable unseen (first :: rest) =
      (first, found) ::
        reachable (unseen.erase first) (found.value.mentions.reverse ++ rest) := by
  rw [reachable]
  split
  · next hfound =>
    rw [hfirst] at hfound
    cases hfound
  · next hfound =>
    rw [hfirst, Option.some.injEq] at hfound
    rw [hfound]

/-- The search finds the same types in the same order among types that agree on all names that it can
meet. -/
theorem reachable_congr {P : String → Prop} {unseen others : OrderedMap String (Shared NamedType)}
    {stack : List String} (hsame : ∀ name, P name → typeOf? unseen name = typeOf? others name)
    (hclosed : ∀ name type, P name → typeOf? unseen name = some type → ∀ next ∈ type.mentions, P next)
    (hstack : ∀ name ∈ stack, P name) :
    (reachable unseen stack).map (fun entry => entry.2.value) =
      (reachable others stack).map fun entry => entry.2.value := by
  induction unseen, stack using reachable.induct generalizing others with
  | case1 unseen => rw [reachable, reachable]
  | case2 unseen first rest hfirst ih =>
    obtain ⟨hname, hrest⟩ := List.forall_mem_cons.1 hstack
    have hnone : others.get? first = none := by
      have htype := hsame first hname
      rw [typeOf?, hfirst, Option.map_none] at htype
      exact Option.map_eq_none_iff.1 htype.symm
    rw [reachable_skip hfirst, reachable_skip hnone]
    exact ih hsame hclosed hrest
  | case3 unseen first rest found hfirst ih =>
    obtain ⟨hname, hrest⟩ := List.forall_mem_cons.1 hstack
    have htype : typeOf? unseen first = some found.value := by
      rw [typeOf?, hfirst, Option.map_some]
    obtain ⟨found', hfirst', hvalue⟩ :=
      Option.map_eq_some_iff.1 ((hsame first hname).symm.trans htype)
    have hnext : ∀ name ∈ found.value.mentions.reverse ++ rest, P name := by
      intro name hmem
      rcases List.mem_append.1 hmem with hmem | hmem
      · exact hclosed first found.value hname htype name (List.mem_reverse.1 hmem)
      · exact hrest name hmem
    rw [reachable_visit hfirst, reachable_visit hfirst', List.map_cons, List.map_cons, hvalue]
    refine congrArg (found.value :: ·) (ih (fun name hname => ?_) (fun name type hname hget => ?_)
      hnext)
    · rw [typeOf?_erase, typeOf?_erase, hsame name hname]
    · rw [typeOf?_erase] at hget
      split at hget
      · cases hget
      · exact hclosed name type hname hget

theorem dependentsOf_congr {P : String → Prop} {root : ObjectType}
    {types others : OrderedMap String (Shared NamedType)}
    (hsame : ∀ name, P name → typeOf? types name = typeOf? others name)
    (hclosed : ∀ name type, P name → typeOf? types name = some type → ∀ next ∈ type.mentions, P next)
    (hroot : ∀ name ∈ root.mentions, P name) :
    (dependentsOf root types).map Shared.value = (dependentsOf root others).map Shared.value := by
  rw [dependentsOf, dependentsOf, List.map_map, List.map_map]
  exact reachable_congr hsame hclosed fun name hname => hroot name (List.mem_reverse.1 hname)

/-- The search finds the types that are reached from its stack. -/
theorem mem_reachable_iff {unseen : OrderedMap String (Shared NamedType)} {stack : List String}
    {name : String} {type : Shared NamedType} :
    (name, type) ∈ reachable unseen stack ↔
      Reaches (typeOf? unseen) stack name ∧ unseen.get? name = some type := by
  induction unseen, stack using reachable.induct with
  | case1 unseen =>
    rw [reachable]
    refine ⟨fun h => absurd h List.not_mem_nil, fun ⟨h, _⟩ => ?_⟩
    exact (h.closed (P := fun _ => False) (fun _ h => absurd h List.not_mem_nil)
      fun _ _ h => h.elim).elim
  | case2 unseen first rest hfirst ih =>
    have hnone : typeOf? unseen first = none := by rw [typeOf?, hfirst, Option.map_none]
    rw [reachable_skip hfirst, ih]
    constructor
    · rintro ⟨hreach, hget⟩
      exact ⟨hreach.mono (fun _ _ h => h) fun _ h => .start (List.mem_cons_of_mem _ h), hget⟩
    · rintro ⟨hreach, hget⟩
      rcases hreach.skip hnone with rfl | hrest
      · rw [hfirst] at hget
        cases hget
      · exact ⟨hrest, hget⟩
  | case3 unseen first rest found hfirst ih =>
    have hsome : typeOf? unseen first = some found.value := by
      rw [typeOf?, hfirst, Option.map_some]
    rw [reachable_visit hfirst, List.mem_cons, ih, OrderedMap.get?_erase, Prod.mk.injEq]
    constructor
    · rintro (⟨rfl, rfl⟩ | ⟨hreach, hget⟩)
      · exact ⟨.start (List.mem_cons_self ..), hfirst⟩
      · split at hget
        · cases hget
        · refine ⟨hreach.mono (fun name type h => ?_) fun name h => ?_, hget⟩
          · rw [typeOf?_erase] at h
            split at h
            · cases h
            · exact h
          · rcases List.mem_append.1 h with h | h
            · exact .step (.start (List.mem_cons_self ..)) hsome (List.mem_reverse.1 h)
            · exact .start (List.mem_cons_of_mem _ h)
    · rintro ⟨hreach, hget⟩
      -- What is not the first name is reached without coming back to it.
      by_cases hname : first = name
      · rw [← hname, hfirst, Option.some.injEq] at hget
        exact .inl ⟨hname.symm, hget.symm⟩
      · rw [if_neg hname]
        refine .inr ⟨(hreach.visit hsome fun other hother => ?_).resolve_left (Ne.symm hname), hget⟩
        rw [typeOf?_erase, if_neg (Ne.symm hother)]

/-- The dependents of a root are the types that it reaches. -/
theorem mem_dependentsOf_iff {root : ObjectType} {types : OrderedMap String (Shared NamedType)}
    {type : Shared NamedType} :
    type ∈ dependentsOf root types ↔
      ∃ name, Reaches (typeOf? types) root.mentions name ∧ types.get? name = some type := by
  have hstart : ∀ name, Reaches (typeOf? types) root.mentions.reverse name ↔
      Reaches (typeOf? types) root.mentions name := fun name =>
    ⟨fun h => h.mono (fun _ _ h => h) fun _ hmem => .start (List.mem_reverse.1 hmem),
      fun h => h.mono (fun _ _ h => h) fun _ hmem => .start (List.mem_reverse.2 hmem)⟩
  rw [dependentsOf, List.mem_map]
  constructor
  · rintro ⟨⟨name, found⟩, hmem, rfl⟩
    obtain ⟨hreach, hget⟩ := mem_reachable_iff.1 hmem
    exact ⟨name, (hstart name).1 hreach, hget⟩
  · rintro ⟨name, hreach, hget⟩
    exact ⟨(name, type), mem_reachable_iff.2 ⟨(hstart name).2 hreach, hget⟩, rfl⟩

end ModelGraph
