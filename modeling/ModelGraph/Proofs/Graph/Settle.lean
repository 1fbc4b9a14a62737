import ModelGraph.Proofs.Graph.Build

/-!
# Resolving slots one by one

When all targets are known, resolving gives every slot the type of its target's output name.

Resolving a slot gives the field at its place another type. Places of different slots are different,
and no path to a place leads through the place of another slot, since a slot is not an object type.
So the places stay where they are, and every slot is still there until it is its turn.

## Main definitions

- `Arena.placeOf` — the place that the path of a slot leads to
- `Arena.connectionOf` — the connection of a plural slot
- `Arena.settled` — an arena with all slots resolved
- `Arena.Settling` — some slots are resolved, and the others are where they were

## Main statements

- `Arena.resolve_eq_ok_iff`, `Arena.resolve_of_find?` — resolving succeeds when all targets are known
- `Arena.get?_connections_settleAll` — the connections that resolving adds
- `Arena.settling_settled` — after resolving, every slot has its resolved type
-/

namespace ModelGraph

/-- The output name of a model that a target names. -/
theorem get?_modelTypeNames {models : List ModelDecl} {target node : String}
    (h : (modelTypeNames models).get? target = some node) : node = Naming.sanitize target := by
  obtain ⟨model, -, heq⟩ := List.mem_map.1 (OrderedMap.mem_of_get?_ofList h)
  cases heq
  rfl

namespace Arena

/-- The place that the path of a slot leads to. -/
def placeOf (arena : Arena) (slot : ReferenceSlot) : Option FieldPlace :=
  arena.locate (.root slot.owner) (outputPath slot.path)

/-- The connection of a plural slot. -/
def connectionOf (slot : ReferenceSlot) (node : String) : ConnectionType where
  name := Naming.connectionType slot.owner slot.path
  edge := Naming.edgeType slot.owner slot.path
  node := node

/-- Where a field type leads to, its place is found. -/
theorem exists_locate {arena : Arena} {holder : Holder} {name : String} {rest : List String}
    {field : OutputField} {type : FieldType} (hfield : arena.fieldAt? ⟨holder, name⟩ = some field)
    (hpath : typeAlong arena.objects field.type rest = some type) :
    ∃ place last, arena.locate holder (name :: rest) = some place ∧
      arena.fieldAt? place = some last ∧ last.type = type := by
  induction rest generalizing holder name field with
  | nil => exact ⟨_, field, rfl, hfield, Option.some.inj hpath⟩
  | cons next rest ih =>
    rw [typeAlong] at hpath
    obtain ⟨object, hobject, hpath⟩ := Option.bind_eq_some_iff.1 hpath
    obtain ⟨holder', hholder, hpath⟩ := Option.bind_eq_some_iff.1 hpath
    obtain ⟨inner, hinner, hpath⟩ := Option.bind_eq_some_iff.1 hpath
    have hat : arena.fieldAt? ⟨.object object, next⟩ = some inner := by
      rw [fieldAt?, holder?, hholder, Option.bind_some]
      exact hinner
    obtain ⟨place, last, hlocate, hlast⟩ := ih hat hpath
    refine ⟨place, last, ?_, hlast⟩
    rw [locate, hfield, Option.bind_some, hobject]
    exact hlocate

/-! ### One slot -/

/-- An arena with the connection that a slot needs. -/
def connect (arena : Arena) (slot : ReferenceSlot) (node : String) : Arena :=
  match slot.cardinality with
  | .single => arena
  | .plural => arena.addConnection slot node

/-- An arena with a slot resolved. -/
def settle (arena : Arena) (slot : ReferenceSlot) (node : String) : Arena :=
  match arena.placeOf slot with
  | some place => (arena.connect slot node).retypeAt place (resolvedType slot node)
  | none => arena.connect slot node

theorem connect_frame (arena : Arena) (slot : ReferenceSlot) (node : String) :
    (arena.connect slot node).roots = arena.roots ∧
      (arena.connect slot node).objects = arena.objects ∧
      (arena.connect slot node).enums = arena.enums ∧
      (arena.connect slot node).inputs = arena.inputs := by
  rw [connect]
  cases slot.cardinality <;> exact ⟨rfl, rfl, rfl, rfl⟩

theorem fieldAt?_connect (arena : Arena) (slot : ReferenceSlot) (node : String)
    (place : FieldPlace) : (arena.connect slot node).fieldAt? place = arena.fieldAt? place := by
  rw [connect]
  cases slot.cardinality <;> rfl

/-- Where the path of a slot leads depends on roots and object types only. -/
theorem placeOf_congr {arena other : Arena} (hroots : arena.roots = other.roots)
    (hobjects : arena.objects = other.objects) (slot : ReferenceSlot) :
    arena.placeOf slot = other.placeOf slot :=
  locate_congr hroots hobjects _ _

theorem resolveSlot_eq (modelNames : OrderedMap String String) (arena : Arena)
    (slot : ReferenceSlot) :
    resolveSlot modelNames arena slot =
      match modelNames.get? slot.target with
      | none => .error (.unknownTarget slot.owner slot.path slot.target)
      | some node => .ok (arena.settle slot node) := by
  rw [resolveSlot]
  cases modelNames.get? slot.target with
  | none => rfl
  | some node =>
    have hplace : (arena.connect slot node).locate (startOf slot.owner none)
        (outputPath slot.path) = arena.placeOf slot :=
      locate_congr (connect_frame arena slot node).1 (connect_frame arena slot node).2.1 _ _
    change Except.ok ((arena.connect slot node).replaceAlong slot.owner none _ _) = _
    rw [replaceAlong_eq, hplace]
    rfl

/-- Giving a field another type changes neither the names of types nor the other tables. -/
theorem retypeAt_frame (arena : Arena) (place : FieldPlace) (type : FieldType) :
    (arena.retypeAt place type).roots.keys = arena.roots.keys ∧
      (arena.retypeAt place type).objects.keys = arena.objects.keys ∧
      (arena.retypeAt place type).enums = arena.enums ∧
      (arena.retypeAt place type).inputs = arena.inputs ∧
      (arena.retypeAt place type).connections = arena.connections := by
  obtain ⟨holder, name⟩ := place
  rw [retypeAt]
  cases hholder : arena.holder? holder with
  | none => exact ⟨rfl, rfl, rfl, rfl, rfl⟩
  | some object =>
    dsimp only
    cases object.fields.get? name with
    | none => exact ⟨rfl, rfl, rfl, rfl, rfl⟩
    | some field =>
      cases holder with
      | root owner =>
        exact ⟨OrderedMap.keys_insert_of_mem (OrderedMap.mem_keys_of_get? hholder), rfl, rfl, rfl,
          rfl⟩
      | object owner =>
        exact ⟨rfl, OrderedMap.keys_insert_of_mem (OrderedMap.mem_keys_of_get? hholder), rfl, rfl,
          rfl⟩

/-- Resolving a slot changes neither the names of types nor enums and inputs. -/
theorem settle_frame (arena : Arena) (slot : ReferenceSlot) (node : String) :
    (arena.settle slot node).roots.keys = arena.roots.keys ∧
      (arena.settle slot node).objects.keys = arena.objects.keys ∧
      (arena.settle slot node).enums = arena.enums ∧
      (arena.settle slot node).inputs = arena.inputs := by
  obtain ⟨hroots, hobjects, henums, hinputs⟩ := connect_frame arena slot node
  rw [settle]
  split
  · next place _ =>
    obtain ⟨hroots', hobjects', henums', hinputs', -⟩ :=
      retypeAt_frame (arena.connect slot node) place (resolvedType slot node)
    rw [hroots', hobjects', henums', hinputs', hroots, hobjects, henums, hinputs]
    exact ⟨rfl, rfl, rfl, rfl⟩
  · rw [hroots, hobjects, henums, hinputs]
    exact ⟨rfl, rfl, rfl, rfl⟩

theorem connections_settle (arena : Arena) (slot : ReferenceSlot) (node : String) :
    (arena.settle slot node).connections =
      match slot.cardinality with
      | .single => arena.connections
      | .plural => arena.connections.insertIfNew (connectionOf slot node).name
          (connectionOf slot node) := by
  have hconnect : (arena.settle slot node).connections = (arena.connect slot node).connections := by
    rw [settle]
    split
    · exact (retypeAt_frame _ _ _).2.2.2.2
    · rfl
  rw [hconnect, connect]
  cases slot.cardinality <;> rfl

/-- The field at a place after a slot is resolved. -/
theorem fieldAt?_settle (arena : Arena) (slot : ReferenceSlot) (node : String)
    (place : FieldPlace) :
    (arena.settle slot node).fieldAt? place =
      if arena.placeOf slot = some place then
        (arena.fieldAt? place).map fun field => { field with type := resolvedType slot node }
      else arena.fieldAt? place := by
  rw [settle]
  cases arena.placeOf slot with
  | none => rw [if_neg (by simp), fieldAt?_connect]
  | some other => simp only [fieldAt?_retypeAt, fieldAt?_connect, Option.some.injEq]

/-! ### Slot after slot -/

/-- An arena with slots resolved, one after another. -/
def settleAll (arena : Arena) (slots : List ReferenceSlot) : Arena :=
  slots.foldl (fun arena slot => arena.settle slot (Naming.sanitize slot.target)) arena

/-- An arena with all slots resolved that were left behind. -/
def settled (arena : Arena) : Arena := { arena with pending := [] }.settleAll arena.pending

section Resolve

variable {models : List ModelDecl} {slot : ReferenceSlot} {slots : List ReferenceSlot}
  {arena last : Arena}

theorem resolveSlot_of_mem (h : slot.target ∈ models.map ModelDecl.name) :
    resolveSlot (modelTypeNames models) arena slot =
      .ok (arena.settle slot (Naming.sanitize slot.target)) := by
  have hkey : slot.target ∈ (modelTypeNames models).keys := by
    rw [modelTypeNames, OrderedMap.mem_keys_ofList, List.map_map]
    exact h
  obtain ⟨node, hnode⟩ := OrderedMap.mem_keys_iff.1 hkey
  rw [resolveSlot_eq, hnode, get?_modelTypeNames hnode]

theorem resolveSlot_of_notMem (h : slot.target ∉ models.map ModelDecl.name) :
    resolveSlot (modelTypeNames models) arena slot =
      .error (.unknownTarget slot.owner slot.path slot.target) := by
  have hnone : (modelTypeNames models).get? slot.target = none := by
    rw [OrderedMap.get?_eq_none_iff, modelTypeNames, OrderedMap.mem_keys_ofList, List.map_map]
    exact h
  rw [resolveSlot_eq, hnone]

theorem foldlM_resolveSlot_eq_ok_iff :
    slots.foldlM (resolveSlot (modelTypeNames models)) arena = .ok last ↔
      (∀ slot ∈ slots, slot.target ∈ models.map ModelDecl.name) ∧ arena.settleAll slots = last := by
  induction slots generalizing arena with
  | nil =>
    rw [List.foldlM_nil]
    exact ⟨fun h => ⟨fun _ hslot => absurd hslot List.not_mem_nil, Except.ok.inj h⟩,
      fun h => congrArg Except.ok h.2⟩
  | cons slot rest ih =>
    rw [List.foldlM_cons, List.forall_mem_cons]
    by_cases htarget : slot.target ∈ models.map ModelDecl.name
    · rw [resolveSlot_of_mem htarget]
      refine ih.trans ?_
      exact ⟨fun h => ⟨⟨htarget, h.1⟩, h.2⟩, fun h => ⟨h.1.2, h.2⟩⟩
    · rw [resolveSlot_of_notMem htarget]
      exact ⟨fun h => (by cases h), fun h => absurd h.1.1 htarget⟩

/-- Resolving succeeds when every target is the name of a model. -/
theorem resolve_eq_ok_iff :
    arena.resolve (modelTypeNames models) = .ok last ↔
      (∀ slot ∈ arena.pending, slot.target ∈ models.map ModelDecl.name) ∧ arena.settled = last :=
  foldlM_resolveSlot_eq_ok_iff

theorem foldlM_resolveSlot_of_find?
    (h : (slots.find? fun slot => slot.target ∉ models.map ModelDecl.name) = some slot) :
    slots.foldlM (resolveSlot (modelTypeNames models)) arena =
      .error (.unknownTarget slot.owner slot.path slot.target) := by
  induction slots generalizing arena with
  | nil => cases h
  | cons first rest ih =>
    rw [List.foldlM_cons]
    rw [List.find?_cons] at h
    by_cases htarget : first.target ∈ models.map ModelDecl.name
    · rw [decide_eq_false (not_not_intro htarget)] at h
      rw [resolveSlot_of_mem htarget]
      exact ih h
    · rw [decide_eq_true htarget] at h
      obtain rfl := Option.some.inj h
      rw [resolveSlot_of_notMem htarget]
      rfl

/-- Resolving stops at the first slot whose target is not the name of a model. -/
theorem resolve_of_find? (h : (arena.pending.find? fun slot =>
      slot.target ∉ models.map ModelDecl.name) = some slot) :
    arena.resolve (modelTypeNames models) =
      .error (.unknownTarget slot.owner slot.path slot.target) :=
  foldlM_resolveSlot_of_find? h

end Resolve

/-- Resolving slots changes neither the names of types nor enums and inputs. -/
theorem settleAll_frame (arena : Arena) (slots : List ReferenceSlot) :
    (arena.settleAll slots).roots.keys = arena.roots.keys ∧
      (arena.settleAll slots).objects.keys = arena.objects.keys ∧
      (arena.settleAll slots).enums = arena.enums ∧
      (arena.settleAll slots).inputs = arena.inputs := by
  induction slots generalizing arena with
  | nil => exact ⟨rfl, rfl, rfl, rfl⟩
  | cons slot rest ih =>
    obtain ⟨hroots, hobjects, henums, hinputs⟩ := settle_frame arena slot (Naming.sanitize slot.target)
    obtain ⟨hroots', hobjects', henums', hinputs'⟩ := ih (arena.settle slot _)
    exact ⟨hroots'.trans hroots, hobjects'.trans hobjects, henums'.trans henums,
      hinputs'.trans hinputs⟩

theorem settled_frame (arena : Arena) :
    arena.settled.roots.keys = arena.roots.keys ∧ arena.settled.objects.keys = arena.objects.keys ∧
      arena.settled.enums = arena.enums ∧ arena.settled.inputs = arena.inputs :=
  settleAll_frame { arena with pending := [] } arena.pending

/-! ### Connections -/

theorem get?_connections_settle (arena : Arena) (slot : ReferenceSlot) (node name : String) :
    (arena.settle slot node).connections.get? name = (arena.connections.get? name).or
      (if slot.cardinality = .plural ∧ (connectionOf slot node).name = name then
        some (connectionOf slot node) else none) := by
  rw [connections_settle]
  cases slot.cardinality with
  | single => simp
  | plural => simp [OrderedMap.get?_insertIfNew]

/-- Resolving slots adds the connection of the first plural slot of a name. -/
theorem get?_connections_settleAll (arena : Arena) (slots : List ReferenceSlot) (name : String) :
    (arena.settleAll slots).connections.get? name = (arena.connections.get? name).or
      (((slots.filter fun slot => slot.cardinality = .plural).find? fun slot =>
        Naming.connectionType slot.owner slot.path = name).map fun slot =>
          connectionOf slot (Naming.sanitize slot.target)) := by
  induction slots generalizing arena with
  | nil => exact (Option.or_none ..).symm
  | cons slot rest ih =>
    refine (ih _).trans ?_
    rw [get?_connections_settle, Option.or_assoc, List.filter_cons]
    refine congrArg (Option.or _) ?_
    by_cases hplural : slot.cardinality = .plural
    · rw [if_pos (decide_eq_true hplural), List.find?_cons]
      by_cases hname : Naming.connectionType slot.owner slot.path = name
      · rw [if_pos ⟨hplural, hname⟩, decide_eq_true hname]
        rfl
      · rw [if_neg fun h => hname h.2, decide_eq_false hname, Option.none_or]
    · rw [if_neg fun h => hplural h.1, if_neg (by simpa using hplural), Option.none_or]

/-- The connections of resolved slots are those of the plural ones. -/
theorem exists_of_connections_settleAll {arena : Arena} {slots : List ReferenceSlot} {name : String}
    {connection : ConnectionType}
    (h : (arena.settleAll slots).connections.get? name = some connection) :
    arena.connections.get? name = some connection ∨ ∃ slot ∈ slots, slot.cardinality = .plural ∧
      connection = connectionOf slot (Naming.sanitize slot.target) ∧ connection.name = name := by
  rw [get?_connections_settleAll, Option.or_eq_some_iff] at h
  refine h.imp_right fun ⟨_, h⟩ => ?_
  obtain ⟨slot, hfind, rfl⟩ := Option.map_eq_some_iff.1 h
  obtain ⟨hslot, hplural⟩ := List.mem_filter.1 (List.mem_of_find?_eq_some hfind)
  have hname := List.find?_some hfind
  exact ⟨slot, hslot, of_decide_eq_true hplural, rfl, of_decide_eq_true hname⟩

/-- A plural slot gets its connection when no other slot has one of the same name. -/
theorem get?_connections_settleAll_of_nodup {arena : Arena} {slots : List ReferenceSlot}
    (hnodup : ((slots.filter fun slot => slot.cardinality = .plural).map fun slot =>
      Naming.connectionType slot.owner slot.path).Nodup)
    {slot : ReferenceSlot} (hslot : slot ∈ slots) (hplural : slot.cardinality = .plural)
    (hnew : arena.connections.get? (Naming.connectionType slot.owner slot.path) = none) :
    (arena.settleAll slots).connections.get? (Naming.connectionType slot.owner slot.path) =
      some (connectionOf slot (Naming.sanitize slot.target)) := by
  have hmem : slot ∈ slots.filter fun slot => slot.cardinality = .plural :=
    List.mem_filter.2 ⟨hslot, decide_eq_true hplural⟩
  rw [get?_connections_settleAll, hnew, Option.none_or, find?_key_of_nodup hnodup hmem]
  rfl

/-! ### Where slots are -/

/-- Slots that were left behind: each is the type of the field at its place. -/
def Waiting (start : Arena) (slots : List ReferenceSlot) : Prop :=
  ∀ slot ∈ slots, ∃ place field, start.placeOf slot = some place ∧
    start.fieldAt? place = some field ∧ field.type = .unresolved slot

theorem Waiting.placeOf_injective {start : Arena} {slots : List ReferenceSlot}
    (h : Waiting start slots) {slot other : ReferenceSlot} (hslot : slot ∈ slots)
    (hother : other ∈ slots) (heq : start.placeOf slot = start.placeOf other) : slot = other := by
  obtain ⟨place, field, hplace, hfield, htype⟩ := h slot hslot
  obtain ⟨place', field', hplace', hfield', htype'⟩ := h other hother
  rw [hplace, hplace', Option.some.injEq] at heq
  subst heq
  rw [hfield, Option.some.injEq] at hfield'
  subst hfield'
  rw [htype] at htype'
  exact FieldType.unresolved.inj htype'

/-- The slots `done` are resolved, and the other ones are where they were at the start. No field
changes but at the places of slots. -/
structure Settling (start : Arena) (slots done : List ReferenceSlot) (arena : Arena) : Prop where
  places : ∀ slot ∈ slots, arena.placeOf slot = start.placeOf slot
  waiting : ∀ slot ∈ slots, slot ∉ done → ∃ place field, start.placeOf slot = some place ∧
    arena.fieldAt? place = some field ∧ field.type = .unresolved slot
  resolved : ∀ slot ∈ slots, slot ∈ done → ∃ place field, start.placeOf slot = some place ∧
    arena.fieldAt? place = some field ∧
      field.type = resolvedType slot (Naming.sanitize slot.target)
  untouched : ∀ place, (∀ slot ∈ slots, start.placeOf slot ≠ some place) →
    arena.fieldAt? place = start.fieldAt? place

theorem Waiting.settling {start : Arena} {slots : List ReferenceSlot} (h : Waiting start slots) :
    Settling start slots [] { start with pending := [] } where
  places slot _ := placeOf_congr (by rfl) (by rfl) slot
  waiting slot hslot _ := h slot hslot
  resolved _ _ h := absurd h List.not_mem_nil
  untouched _ _ := rfl

section Step

variable {start : Arena} {slots done : List ReferenceSlot} {arena : Arena}

/-- The field at the place of a slot has the slot or its resolved type. -/
theorem Settling.field (h : Settling start slots done arena) {slot : ReferenceSlot}
    (hslot : slot ∈ slots) : ∃ place field, start.placeOf slot = some place ∧
      arena.fieldAt? place = some field ∧ (field.type = .unresolved slot ∨
        field.type = resolvedType slot (Naming.sanitize slot.target)) := by
  by_cases hdone : slot ∈ done
  · obtain ⟨place, field, hplace, hfield, htype⟩ := h.resolved slot hslot hdone
    exact ⟨place, field, hplace, hfield, .inr htype⟩
  · obtain ⟨place, field, hplace, hfield, htype⟩ := h.waiting slot hslot hdone
    exact ⟨place, field, hplace, hfield, .inl htype⟩

/-- Resolving a slot keeps the others where they are. -/
theorem Settling.step (h : Settling start slots done arena) (hwaiting : Waiting start slots)
    {slot : ReferenceSlot} (hslot : slot ∈ slots) :
    Settling start slots (slot :: done) (arena.settle slot (Naming.sanitize slot.target)) := by
  obtain ⟨place, field, hplace, hfield, htype⟩ := h.field hslot
  let node := Naming.sanitize slot.target
  have hhere : arena.placeOf slot = some place := (h.places slot hslot).trans hplace
  have hsettle : arena.settle slot node =
      (arena.connect slot node).retypeAt place (resolvedType slot node) := by
    rw [settle, hhere]
  -- Only the place of the slot changes, and no other slot has it.
  have helse : ∀ other, place ≠ other →
      (arena.settle slot node).fieldAt? other = arena.fieldAt? other := by
    intro other hne
    rw [fieldAt?_settle, hhere, if_neg fun heq => hne (Option.some.inj heq)]
  have hother : ∀ other ∈ slots, other ≠ slot → ∀ place', start.placeOf other = some place' →
      (arena.settle slot node).fieldAt? place' = arena.fieldAt? place' := by
    intro other hmem hne place' hplace'
    refine helse place' ?_
    rintro rfl
    exact hne (hwaiting.placeOf_injective hmem hslot (hplace'.trans hplace.symm))
  refine ⟨fun other hmem => ?_, fun other hmem hnot => ?_, fun other hmem hdone => ?_,
    fun other hfree => ?_⟩
  -- The field of the slot was unresolved, so no path goes on through it, or it does not change.
  · obtain ⟨place', -, hplace', -⟩ := hwaiting other hmem
    have hbefore := (h.places other hmem).trans hplace'
    have hplaceOf : (arena.connect slot node).placeOf other = some place' :=
      (locate_congr (connect_frame arena slot node).1 (connect_frame arena slot node).2.1 _ _).trans
        hbefore
    rw [hplace', hsettle]
    refine locate_retypeAt _ place _ (fun field' hfield' => ?_) _ _ _ hplaceOf
    rw [fieldAt?_connect, hfield, Option.some.injEq] at hfield'
    subst hfield'
    exact htype.imp_left fun htype => by rw [htype]; rfl
  · rw [List.mem_cons, not_or] at hnot
    obtain ⟨place', field', hplace', hfield', htype'⟩ := h.waiting other hmem hnot.2
    exact ⟨place', field', hplace', (hother other hmem hnot.1 place' hplace').trans hfield', htype'⟩
  · by_cases heq : other = slot
    · subst heq
      refine ⟨place, { field with type := resolvedType other node }, hplace, ?_, rfl⟩
      rw [fieldAt?_settle, if_pos hhere, hfield, Option.map_some]
    · obtain ⟨place', field', hplace', hfield', htype'⟩ :=
        h.resolved other hmem ((List.mem_cons.1 hdone).resolve_left heq)
      exact ⟨place', field', hplace', (hother other hmem heq place' hplace').trans hfield', htype'⟩
  · rw [helse other fun heq => hfree slot hslot (heq ▸ hplace)]
    exact h.untouched other hfree

theorem Settling.settleAll (h : Settling start slots done arena) (hwaiting : Waiting start slots)
    {rest : List ReferenceSlot} (hrest : ∀ slot ∈ rest, slot ∈ slots) :
    Settling start slots (rest.reverse ++ done) (arena.settleAll rest) := by
  induction rest generalizing arena done with
  | nil => exact h
  | cons slot rest ih =>
    rw [List.reverse_cons, List.append_assoc]
    exact ih (h.step hwaiting (hrest slot (List.mem_cons_self ..)))
      fun other hmem => hrest other (List.mem_cons_of_mem _ hmem)

/-- After resolving, every slot that was left behind has its resolved type. -/
theorem settling_settled (hwaiting : Waiting start start.pending) :
    Settling start start.pending start.pending start.settled := by
  obtain ⟨hplaces, -, hresolved, huntouched⟩ :=
    hwaiting.settling.settleAll hwaiting fun slot hslot => hslot
  exact ⟨hplaces, fun slot hslot hnot => absurd hslot hnot, fun slot hslot _ =>
    hresolved slot hslot (List.mem_append_left _ (List.mem_reverse.2 hslot)), huntouched⟩

end Step

end Arena

end ModelGraph
