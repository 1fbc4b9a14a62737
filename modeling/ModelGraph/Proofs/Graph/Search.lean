import ModelGraph.Proofs.Graph.Reach

/-!
# The search for the dependents of a root

The dependents of a root are found with a stack of names that are still to be followed and a list of
the names that were found already. The same name may be pushed many times, and types may mention each
other in a circle; a name is followed only the first time it is popped, so the stack runs empty.

What is found is stated without the search, by what fields, arguments and inputs lead to.

## Main definitions

- `ObjectType.LeadsTo`, `NamedType.LeadsTo` — the names that a type leads to
- `FoundFrom` — the entries of a table that are found from a root
- `Search`, `Search.step`, `Search.Ends` — the search, turn by turn

## Main statements

- `Search.ends_reachable` — the search ends, with the names that are reachable from its stack
- `dependentsOf_exact` — the dependents of a root are the entries that are found from it
-/

namespace ModelGraph

/-! ### What types lead to -/

/-- A field type leads to the enum, the object or the connection that it has under any lists and
non-null wrappers. A scalar leads nowhere, and neither does a slot. -/
inductive FieldType.LeadsTo (name : String) : FieldType → Prop
  | enum : LeadsTo name (.enum name)
  | object : LeadsTo name (.object name)
  | connection : LeadsTo name (.connection name)
  | list {element : FieldType} : LeadsTo name element → LeadsTo name (.list element)
  | nonNull {inner : FieldType} : LeadsTo name inner → LeadsTo name (.nonNull inner)

/-- An argument type leads to the type that it has under any lists. -/
inductive ArgType.LeadsTo (name : String) : ArgType → Prop
  | named : LeadsTo name (.named name)
  | list {element : ArgType} : LeadsTo name element → LeadsTo name (.list element)

/-- An object type leads to what the types of its fields and of their arguments lead to. -/
inductive ObjectType.LeadsTo (name : String) (type : ObjectType) : Prop
  | field {field : OutputField} : field ∈ type.fields.values → field.type.LeadsTo name →
      LeadsTo name type
  | argument {field : OutputField} {arg : Argument} : field ∈ type.fields.values →
      arg ∈ field.args → arg.type.LeadsTo name → LeadsTo name type

/-- A named type leads on when it is an object or an input. Enums and connections lead nowhere. -/
inductive NamedType.LeadsTo (name : String) : NamedType → Prop
  | object {type : ObjectType} : type.LeadsTo name → LeadsTo name (.object type)
  | input {type : InputType} {field : ArgType} : field ∈ type.fields.values →
      field.LeadsTo name → LeadsTo name (.input type)

/-- The entries of a table that are found from a root, by way of other entries of the table. -/
inductive FoundFrom (root : ObjectType) (types : OrderedMap String (Shared NamedType)) :
    String → Shared NamedType → Prop
  | root {name : String} {type : Shared NamedType} : root.LeadsTo name →
      types.get? name = some type → FoundFrom root types name type
  | through {name next : String} {type found : Shared NamedType} :
      FoundFrom root types name type → type.value.LeadsTo next →
      types.get? next = some found → FoundFrom root types next found

/-- The names at the core of a field type: at most one. -/
theorem FieldType.leadsTo_iff {type : FieldType} {name : String} :
    type.LeadsTo name ↔ type.innermost = .enum name ∨ type.innermost = .object name ∨
      type.innermost = .connection name := by
  constructor
  · intro h
    induction h with
    | enum => exact .inl rfl
    | object => exact .inr (.inl rfl)
    | connection => exact .inr (.inr rfl)
    | list _ ih => exact ih
    | nonNull _ ih => exact ih
  · intro h
    induction type with
    | scalar kind => simp [FieldType.innermost] at h
    | unresolved slot => simp [FieldType.innermost] at h
    | enum other =>
      obtain rfl : other = name := by simpa [FieldType.innermost] using h
      exact .enum
    | object other =>
      obtain rfl : other = name := by simpa [FieldType.innermost] using h
      exact .object
    | connection other =>
      obtain rfl : other = name := by simpa [FieldType.innermost] using h
      exact .connection
    | list element ih => exact .list (ih h)
    | nonNull inner ih => exact .nonNull (ih h)

theorem ArgType.leadsTo_iff {type : ArgType} {name : String} :
    type.LeadsTo name ↔ type.innermost = name := by
  constructor
  · intro h
    induction h with
    | named => rfl
    | list _ ih => exact ih
  · intro h
    induction type with
    | named other =>
      obtain rfl : other = name := h
      exact .named
    | list element ih => exact .list (ih h)

theorem OutputField.mem_mentions_iff {field : OutputField} {name : String} :
    name ∈ field.mentions ↔
      field.type.LeadsTo name ∨ ∃ arg ∈ field.args, arg.type.LeadsTo name := by
  simp only [OutputField.mentions, List.mem_append, List.mem_map, ArgType.leadsTo_iff,
    FieldType.leadsTo_iff]
  refine or_congr ?_ Iff.rfl
  cases field.type.innermost <;> simp [eq_comm]

theorem ObjectType.mem_mentions_iff {type : ObjectType} {name : String} :
    name ∈ type.mentions ↔ type.LeadsTo name := by
  rw [ObjectType.mentions, List.mem_flatMap]
  constructor
  · rintro ⟨field, hfield, hname⟩
    rcases OutputField.mem_mentions_iff.1 hname with hname | ⟨arg, harg, hname⟩
    · exact .field hfield hname
    · exact .argument hfield harg hname
  · rintro (⟨hfield, hname⟩ | ⟨hfield, harg, hname⟩)
    · exact ⟨_, hfield, OutputField.mem_mentions_iff.2 (.inl hname)⟩
    · exact ⟨_, hfield, OutputField.mem_mentions_iff.2 (.inr ⟨_, harg, hname⟩)⟩

theorem NamedType.mem_mentions_iff {type : NamedType} {name : String} :
    name ∈ type.mentions ↔ type.LeadsTo name := by
  constructor
  · intro h
    cases type with
    | object type => exact .object (ObjectType.mem_mentions_iff.1 h)
    | input type =>
      obtain ⟨field, hfield, hname⟩ := List.mem_map.1 h
      exact .input hfield (ArgType.leadsTo_iff.2 hname)
    | enum type => exact absurd h List.not_mem_nil
    | connection type => exact absurd h List.not_mem_nil
  · rintro (h | ⟨hfield, hname⟩)
    · exact ObjectType.mem_mentions_iff.2 h
    · exact List.mem_map.2 ⟨_, hfield, ArgType.leadsTo_iff.1 hname⟩

/-- What is found from a root is what the names that the root mentions reach in the table. -/
theorem foundFrom_iff {root : ObjectType} {types : OrderedMap String (Shared NamedType)}
    {name : String} {type : Shared NamedType} :
    FoundFrom root types name type ↔
      Reaches (typeOf? types) root.mentions name ∧ types.get? name = some type := by
  constructor
  · intro h
    induction h with
    | root hlead hget => exact ⟨.start (ObjectType.mem_mentions_iff.2 hlead), hget⟩
    | @through name _ type _ _ hlead hget ih =>
      have htype : typeOf? types name = some type.value := by rw [typeOf?, ih.2, Option.map_some]
      exact ⟨.step ih.1 htype (NamedType.mem_mentions_iff.2 hlead), hget⟩
  · rintro ⟨hreach, hget⟩
    induction hreach generalizing type with
    | start hmem => exact .root (ObjectType.mem_mentions_iff.1 hmem) hget
    | step _ htype hnext ih =>
      obtain ⟨shared, hshared, rfl⟩ := Option.map_eq_some_iff.1 htype
      exact .through (ih hshared) (NamedType.mem_mentions_iff.1 hnext) hget

/-! ### The search, turn by turn -/

/-- A search under way: the names that were found, in order, and the names that are still to be
followed, the one to be followed next first. -/
structure Search where
  seen : List String
  stack : List String

namespace Search

/-- The search at its start: what the root mentions is to be followed, the last mention first. -/
def start (root : ObjectType) : Search := ⟨[], root.mentions.reverse⟩

variable (types : OrderedMap String (Shared NamedType))

/-- One turn: the top of the stack is popped, and passed over when the table does not have it or when
it was found before. There is no turn without a name to follow. -/
def step : Search → Option Search
  | ⟨_, []⟩ => none
  | ⟨seen, name :: rest⟩ =>
    match types.get? name with
    | none => some ⟨seen, rest⟩
    | some type =>
      if name ∈ seen then some ⟨seen, rest⟩
      else some ⟨seen ++ [name], type.value.mentions.reverse ++ rest⟩

/-- A search that ends after a number of turns, with the names that it found. -/
inductive Ends : Search → Nat → List String → Prop
  | stop {search : Search} : search.step types = none → Ends search 0 search.seen
  | turn {search next : Search} {turns : Nat} {names : List String} :
      search.step types = some next → Ends next turns names → Ends search (turns + 1) names

variable {types}

/-- A search ends in one way only. -/
theorem Ends.unique {search : Search} {turns others : Nat} {names more : List String}
    (h : Ends types search turns names) (hmore : Ends types search others more) :
    others = turns ∧ more = names := by
  induction h generalizing others more with
  | stop hstep =>
    cases hmore with
    | stop => exact ⟨rfl, rfl⟩
    | turn hnext => rw [hstep] at hnext; cases hnext
  | turn hstep _ ih =>
    cases hmore with
    | stop hnone => rw [hstep] at hnone; cases hnone
    | turn hnext hends =>
      obtain rfl := Option.some.inj (hstep.symm.trans hnext)
      obtain ⟨rfl, rfl⟩ := ih hends
      exact ⟨rfl, rfl⟩

/-- The entries of a table that a search has not found. -/
def Leaves (types unseen : OrderedMap String (Shared NamedType)) (seen : List String) : Prop :=
  ∀ name, unseen.get? name = if name ∈ seen then none else types.get? name

variable {unseen : OrderedMap String (Shared NamedType)} {seen rest : List String} {name : String}

theorem Leaves.nil : Leaves types types [] := fun name => by rw [if_neg List.not_mem_nil]

/-- Finding a name takes it out of the entries that are left. -/
theorem Leaves.found (h : Leaves types unseen seen) :
    Leaves types (unseen.erase name) (seen ++ [name]) := by
  intro other
  rw [OrderedMap.get?_erase, h other]
  by_cases hother : name = other
  · rw [if_pos hother, if_pos (List.mem_append_right _ (List.mem_singleton.2 hother.symm))]
  · have hmem : other ∈ seen ++ [name] ↔ other ∈ seen := by
      rw [List.mem_append, List.mem_singleton, or_iff_left (Ne.symm hother)]
    rw [if_neg hother, if_congr hmem rfl rfl]

/-- A name that is not among the entries left is passed over. -/
theorem step_skip (h : Leaves types unseen seen) (hname : unseen.get? name = none) :
    step types ⟨seen, name :: rest⟩ = some ⟨seen, rest⟩ := by
  rw [step]
  rw [h name] at hname
  split
  · rfl
  · next hget =>
    split at hname
    · next hseen => rw [if_pos hseen]
    · rw [hget] at hname; cases hname

/-- A name among the entries left is found, and what its type mentions goes on the stack. -/
theorem step_visit {type : Shared NamedType} (h : Leaves types unseen seen)
    (hname : unseen.get? name = some type) :
    step types ⟨seen, name :: rest⟩ =
      some ⟨seen ++ [name], type.value.mentions.reverse ++ rest⟩ := by
  rw [h name] at hname
  split at hname
  · cases hname
  · next hseen => simp only [step, hname, if_neg hseen]

/-- The turns that a search takes: one for each name on its stack, and one for each name that a type
which it finds mentions. -/
def turnsOf (stack : List String) (found : List (Shared NamedType)) : Nat :=
  stack.length + (found.flatMap fun type => type.value.mentions).length

/-- The search ends, and finds what is reachable from its stack among the entries left. -/
theorem ends_reachable {stack : List String} (h : Leaves types unseen seen) :
    Ends types ⟨seen, stack⟩ (turnsOf stack ((reachable unseen stack).map Prod.snd))
      (seen ++ (reachable unseen stack).map Prod.fst) := by
  induction unseen, stack using reachable.induct generalizing seen with
  | case1 unseen =>
    rw [reachable, List.map_nil, List.map_nil, List.append_nil]
    exact .stop rfl
  | case2 unseen first rest hfirst ih =>
    rw [reachable_skip hfirst, turnsOf, List.length_cons, Nat.add_right_comm]
    exact .turn (step_skip h hfirst) (ih h)
  | case3 unseen first rest found hfirst ih =>
    rw [reachable_visit hfirst, List.map_cons, List.map_cons]
    have hturns : ∀ others : List (Shared NamedType),
        turnsOf (first :: rest) (found :: others) =
          turnsOf (found.value.mentions.reverse ++ rest) others + 1 := by
      intro others
      simp only [turnsOf, List.length_cons, List.length_append, List.length_reverse,
        List.flatMap_cons]
      omega
    rw [hturns, List.append_cons]
    exact .turn (step_visit h hfirst) (ih h.found)

end Search

/-! ### What is found -/

theorem nodup_reachable {unseen : OrderedMap String (Shared NamedType)} {stack : List String} :
    ((reachable unseen stack).map Prod.fst).Nodup := by
  induction unseen, stack using reachable.induct with
  | case1 unseen => rw [reachable]; exact List.nodup_nil
  | case2 unseen first rest hfirst ih => rwa [reachable_skip hfirst]
  | case3 unseen first rest found hfirst ih =>
    rw [reachable_visit hfirst, List.map_cons, List.nodup_cons]
    refine ⟨fun hmem => ?_, ih⟩
    obtain ⟨⟨name, type⟩, hentry, rfl⟩ := List.mem_map.1 hmem
    have hget := (mem_reachable_iff.1 hentry).2
    rw [OrderedMap.get?_erase, if_pos rfl] at hget
    cases hget

/-- The names found stand in the table for the types found with them. -/
theorem map_get?_reachable {types : OrderedMap String (Shared NamedType)} {stack : List String} :
    ((reachable types stack).map Prod.fst).map types.get? =
      ((reachable types stack).map Prod.snd).map some := by
  rw [List.map_map, List.map_map]
  exact List.map_congr_left fun entry hentry => (mem_reachable_iff.1 hentry).2

theorem foundFrom_iff_mem_reachable {root : ObjectType}
    {types : OrderedMap String (Shared NamedType)} {name : String} {type : Shared NamedType} :
    FoundFrom root types name type ↔ (name, type) ∈ reachable types root.mentions.reverse := by
  rw [foundFrom_iff, mem_reachable_iff]
  refine and_congr_left fun _ => ⟨fun h => ?_, fun h => ?_⟩
  · exact h.mono (fun _ _ h => h) fun _ hmem => .start (List.mem_reverse.2 hmem)
  · exact h.mono (fun _ _ h => h) fun _ hmem => .start (List.mem_reverse.1 hmem)

theorem mem_dependentsOf_iff_foundFrom {root : ObjectType}
    {types : OrderedMap String (Shared NamedType)} {type : Shared NamedType} :
    type ∈ dependentsOf root types ↔ ∃ name, FoundFrom root types name type := by
  simp only [dependentsOf, List.mem_map, Prod.exists, foundFrom_iff_mem_reachable,
    exists_eq_right]

/-- The search of any root in any table ends in one way, after as many turns as names are mentioned
by the root and by the types found. It finds each name once, the dependents are the entries of these
names in the order of the search, and they are exactly the entries found from the root. So an entry
that the root or a dependent leads to is a dependent. -/
theorem dependentsOf_exact (root : ObjectType) (types : OrderedMap String (Shared NamedType)) :
    ∃ names : List String,
      (∀ turns found, Search.Ends types (.start root) turns found ↔
        turns = Search.turnsOf root.mentions (dependentsOf root types) ∧ found = names) ∧
      names.Nodup ∧
      names.map types.get? = (dependentsOf root types).map some ∧
      (∀ name, name ∈ names ↔ ∃ type, FoundFrom root types name type) ∧
      (∀ type, type ∈ dependentsOf root types ↔ ∃ name, FoundFrom root types name type) ∧
      ∀ name type, types.get? name = some type →
        (root.LeadsTo name ∨ ∃ other ∈ dependentsOf root types, other.value.LeadsTo name) →
        name ∈ names ∧ type ∈ dependentsOf root types := by
  have hnames : ∀ name, name ∈ (reachable types root.mentions.reverse).map Prod.fst ↔
      ∃ type, FoundFrom root types name type := by
    intro name
    simp only [List.mem_map, Prod.exists, foundFrom_iff_mem_reachable, exists_and_right,
      exists_eq_right]
  refine ⟨(reachable types root.mentions.reverse).map Prod.fst, fun turns found => ?_,
    nodup_reachable, map_get?_reachable, hnames, fun _ => mem_dependentsOf_iff_foundFrom,
    fun name type hget hlead => ?_⟩
  · have hends : Search.Ends types (.start root) _ _ := Search.ends_reachable Search.Leaves.nil
    rw [List.nil_append, Search.turnsOf, List.length_reverse] at hends
    constructor
    · exact hends.unique
    · rintro ⟨rfl, rfl⟩
      exact hends
  · have hfound : FoundFrom root types name type := by
      rcases hlead with hlead | ⟨other, hother, hlead⟩
      · exact .root hlead hget
      · obtain ⟨before, hbefore⟩ := mem_dependentsOf_iff_foundFrom.1 hother
        exact .through hbefore hlead hget
    exact ⟨(hnames name).2 ⟨type, hfound⟩, mem_dependentsOf_iff_foundFrom.2 ⟨name, hfound⟩⟩

end ModelGraph
