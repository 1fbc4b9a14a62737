import ModelGraph.Proofs.Graph.Layout
import ModelGraph.Proofs.OrderedMap

/-!
# What mirrors mention

A mirror is announced before its fields are visited and taken back when none of them can be matched.
Nothing refers to a mirror that is taken back: visiting a type that has no match leaves no trace. So
the names that arguments and mirrors mention are those of scalars, of enums, and of mirrors that
stay.

## Main definitions

- `Vocabulary` — the names that the types of fields may mention
- `Mirrors.Closed` — mirrors that mention scalars, enums and each other only
- `Mirrors.Extends` — what visiting types does to the mirrors

## Main statements

- `Mirrors.mirror_spec` — building a mirror extends the mirrors, or leaves them alone
- `Arguments.derive_spec` — the arguments of a field mention mirrors that stay
-/

namespace ModelGraph

/-- The names that the types of fields may mention. -/
structure Vocabulary where
  objects : String → Prop
  enums : String → Prop
  connections : String → Prop := fun _ => False

/-- Whether all names of a vocabulary are names of a larger one. -/
structure Vocabulary.Within (words larger : Vocabulary) : Prop where
  objects : ∀ name, words.objects name → larger.objects name
  enums : ∀ name, words.enums name → larger.enums name
  connections : ∀ name, words.connections name → larger.connections name

/-- The values of a type are scalars, enum items, objects or connections, or a slot is open. -/
theorem FieldType.innermost_cases (type : FieldType) : (∃ kind, type.innermost = .scalar kind) ∨
    (∃ name, type.innermost = .enum name) ∨ (∃ name, type.innermost = .object name) ∨
      (∃ name, type.innermost = .connection name) ∨ type.isUnresolved = true := by
  induction type with
  | list element ih => exact ih
  | nonNull inner ih => exact ih
  | scalar kind => exact .inl ⟨kind, rfl⟩
  | enum name => exact .inr (.inl ⟨name, rfl⟩)
  | object name => exact .inr (.inr (.inl ⟨name, rfl⟩))
  | connection name => exact .inr (.inr (.inr (.inl ⟨name, rfl⟩)))
  | unresolved => exact .inr (.inr (.inr (.inr rfl)))

/-- Whether a type mentions a name of the vocabulary, if any. -/
def FieldType.Uses (words : Vocabulary) (type : FieldType) : Prop :=
  match type.innermost with
  | .enum name => words.enums name
  | .object name => words.objects name
  | .connection name => words.connections name
  | _ => True

theorem FieldType.Uses.mono {words larger : Vocabulary} {type : FieldType} (h : type.Uses words)
    (hwithin : words.Within larger) : type.Uses larger := by
  rw [Uses] at h ⊢
  cases hcore : type.innermost with
  | enum name =>
    rw [hcore] at h
    exact hwithin.enums name h
  | object name =>
    rw [hcore] at h
    exact hwithin.objects name h
  | connection name =>
    rw [hcore] at h
    exact hwithin.connections name h
  | scalar _ | list _ | nonNull _ | unresolved _ => trivial

theorem FieldType.Uses.nullable {words : Vocabulary} {type : FieldType} (h : type.Uses words) :
    type.nullable.Uses words := by
  cases type <;> exact h

namespace Arguments

/-- The names that every schema knows: the scalars, and the enums that arguments take. -/
def isBuiltIn (name : String) : Bool :=
  OutputScalar.isName name || name = sortDirection || name = logicalOperator

theorem isBuiltIn_scalar (kind : OutputScalar) : isBuiltIn kind.name = true := by
  cases kind <;> decide

theorem mem_of_isBuiltIn {name : String} (h : isBuiltIn name = true) :
    name ∈ OutputScalar.all.map OutputScalar.name ++ [sortDirection, logicalOperator] := by
  rw [isBuiltIn, Bool.or_eq_true, Bool.or_eq_true, decide_eq_true_iff, decide_eq_true_iff] at h
  rcases h with (hscalar | rfl) | rfl
  · obtain ⟨kind, hkind⟩ := Option.isSome_iff_exists.1 hscalar
    have hname : kind.name = name := by simpa using List.find?_some hkind
    exact List.mem_append_left _ (List.mem_map.2 ⟨kind, List.mem_of_find?_eq_some hkind, hname⟩)
  · simp
  · simp

/-- A name is not one that every schema knows when it ends with a suffix of none of these. -/
theorem isBuiltIn_append {suffix : String}
    (h : ∀ name ∈ OutputScalar.all.map OutputScalar.name ++ [sortDirection, logicalOperator],
      ¬ suffix.toList <:+ name.toList) (name : String) : isBuiltIn (name ++ suffix) = false := by
  rw [← Bool.not_eq_true]
  exact fun hbuiltIn => h _ (mem_of_isBuiltIn hbuiltIn) ⟨name.toList, String.toList_append.symm⟩

end Arguments

/-- Whether an argument type names a scalar, an enum of the vocabulary or a mirror. -/
def ArgType.Uses (words : Vocabulary) (mirrors : Mirrors) (type : ArgType) : Prop :=
  Arguments.isBuiltIn type.innermost = true ∨ words.enums type.innermost ∨
    type.innermost ∈ mirrors.keys

theorem ArgType.Uses.mono {words : Vocabulary} {mirrors larger : Mirrors} {type : ArgType}
    (h : type.Uses words mirrors) (hkeys : ∀ name ∈ mirrors.keys, name ∈ larger.keys) :
    type.Uses words larger :=
  h.imp_right (Or.imp_right (hkeys _))

theorem ArgType.Uses.scalar (words : Vocabulary) (mirrors : Mirrors) (kind : OutputScalar) :
    (ArgType.named kind.name).Uses words mirrors :=
  .inl (Arguments.isBuiltIn_scalar kind)

/-- Whether the fields of object types use a vocabulary. -/
def Speaks (words : Vocabulary) (objects : OrderedMap String ObjectType) : Prop :=
  ∀ name type, objects.get? name = some type → ∀ field ∈ type.fields.values, field.type.Uses words

theorem Speaks.erase {words : Vocabulary} {objects : OrderedMap String ObjectType}
    (h : Speaks words objects) (name : String) : Speaks words (objects.erase name) := by
  intro other type hget
  rw [OrderedMap.get?_erase] at hget
  split at hget
  · cases hget
  · exact h other type hget

namespace Mirrors

/-! ### One step -/

section Run

variable (objects available : OrderedMap String ObjectType) (mirrors : Mirrors)

theorem run_mirror (object : String) :
    (mirror objects available object).run mirrors =
      if mirrors.contains (Naming.inputType object) then (some (Naming.inputType object), mirrors)
      else
        match available.get? object with
        | none => (none, mirrors)
        | some source =>
          let announced := mirrors.insert (Naming.inputType object) ⟨Naming.inputType object, ∅⟩
          let inner :=
            (mirrorFields objects (available.erase object) source.fields.values ∅).run announced
          if inner.1.isEmpty then (none, inner.2.erase (Naming.inputType object))
          else
            (some (Naming.inputType object),
              inner.2.insert (Naming.inputType object) ⟨Naming.inputType object, inner.1⟩) := by
  rw [mirror]
  change (if mirrors.contains (Naming.inputType object) then _ else _ : StateM Mirrors _).run
    mirrors = _
  by_cases h : mirrors.contains (Naming.inputType object)
  · rw [if_pos h, if_pos h]
    rfl
  · rw [if_neg h, if_neg h]
    split
    · next hsource =>
      rw [hsource]
      rfl
    · next source hsource =>
      rw [hsource, run_bind, run_bind]
      dsimp only
      split
      · next hempty => exact (if_pos hempty).symm
      · next hempty => exact (if_neg hempty).symm

theorem run_mirrorFields_cons (field : OutputField) (rest : List OutputField)
    (mirrored : OrderedMap String ArgType) :
    (mirrorFields objects available (field :: rest) mirrored).run mirrors =
      let first := (inputType objects available field.type).run mirrors
      match first.1 with
      | some type =>
        (mirrorFields objects available rest (mirrored.insert field.name type)).run first.2
      | none => (mirrorFields objects available rest mirrored).run first.2 := by
  rw [mirrorFields, run_bind]
  cases h : ((inputType objects available field.type).run mirrors).1 <;> simp only [h]

theorem run_inputType_list (element : FieldType) :
    (inputType objects available (.list element)).run mirrors =
      let inner := (inputType objects available element).run mirrors
      (inner.1.map .list, inner.2) := by
  rw [inputType, run_bind]
  rfl

theorem run_inputType_object (name : String) :
    (inputType objects available (.object name)).run mirrors =
      let found := (mirror objects available name).run mirrors
      match found.1 with
      | some mirror => (some (.named mirror), found.2)
      | none =>
        (if objects.contains name then none else some (.named OutputScalar.id.name), found.2) := by
  rw [inputType, run_bind]
  cases h : ((mirror objects available name).run mirrors).1 <;> simp only [h] <;> rfl

end Run

/-! ### Mirrors that stay -/

/-- Mirrors under their own names that mention scalars, enums and each other only. -/
def Closed (words : Vocabulary) (mirrors : Mirrors) : Prop :=
  ∀ name type, mirrors.get? name = some type →
    type.name = name ∧ ∀ arg ∈ type.fields.values, arg.Uses words mirrors

theorem closed_empty (words : Vocabulary) : Closed words ∅ := fun _ _ h => by cases h

theorem Closed.insert {words : Vocabulary} {mirrors : Mirrors} (h : mirrors.Closed words)
    {name : String} {fields : OrderedMap String ArgType}
    (hfields : ∀ arg ∈ fields.values, arg.Uses words (mirrors.insert name ⟨name, fields⟩)) :
    Closed words (mirrors.insert name ⟨name, fields⟩) := by
  intro other type hget
  rw [OrderedMap.get?_insert] at hget
  split at hget
  · next heq =>
    cases hget
    exact ⟨heq, hfields⟩
  · obtain ⟨hname, hargs⟩ := h other type hget
    exact ⟨hname, fun arg harg => (hargs arg harg).mono fun _ hmem =>
      OrderedMap.mem_keys_insert.2 (.inr hmem)⟩

/-- What visiting types does to the mirrors: those before stay, new ones are mirrors of available
objects with a field, and all of them keep mentioning scalars, enums and each other only. -/
structure Extends (words : Vocabulary) (available : OrderedMap String ObjectType)
    (before after : Mirrors) : Prop where
  stay : ∀ name ∈ before.keys, name ∈ after.keys
  fresh : ∀ name ∈ after.keys,
    name ∈ before.keys ∨ ∃ object ∈ available.keys, name = Naming.inputType object
  filled : ∀ name type, after.get? name = some type →
    type.fields.isEmpty = false ∨ before.get? name = some type
  closed : before.Closed words → after.Closed words

section Extends

variable {words : Vocabulary} {available larger : OrderedMap String ObjectType}
  {before middle after : Mirrors}

theorem Extends.refl : Extends words available before before :=
  ⟨fun _ h => h, fun _ h => .inl h, fun _ _ h => .inr h, fun h => h⟩

theorem Extends.trans (h : Extends words available before middle)
    (h' : Extends words available middle after) : Extends words available before after where
  stay name hname := h'.stay name (h.stay name hname)
  fresh name hname := by
    rcases h'.fresh name hname with hmiddle | hnew
    · exact h.fresh name hmiddle
    · exact .inr hnew
  filled name type hget := by
    rcases h'.filled name type hget with hfilled | hget
    · exact .inl hfilled
    · exact h.filled name type hget
  closed hclosed := h'.closed (h.closed hclosed)

/-- An announced mirror gets its fields. -/
theorem Extends.announce {object : String} {fields : OrderedMap String ArgType}
    (hobject : object ∈ available.keys)
    (h : Extends words (available.erase object)
      (before.insert (Naming.inputType object) ⟨Naming.inputType object, ∅⟩) after)
    (hfields : ∀ arg ∈ fields.values, arg.Uses words after) (hfilled : fields.isEmpty = false) :
    Extends words available before
      (after.insert (Naming.inputType object) ⟨Naming.inputType object, fields⟩) where
  stay name hname :=
    OrderedMap.mem_keys_insert.2 (.inr (h.stay name (OrderedMap.mem_keys_insert.2 (.inr hname))))
  fresh name hname := by
    rcases OrderedMap.mem_keys_insert.1 hname with rfl | hname
    · exact .inr ⟨object, hobject, rfl⟩
    · rcases h.fresh name hname with hname | ⟨other, hother, rfl⟩
      · rcases OrderedMap.mem_keys_insert.1 hname with rfl | hname
        · exact .inr ⟨object, hobject, rfl⟩
        · exact .inl hname
      · obtain ⟨type, hget⟩ := OrderedMap.mem_keys_iff.1 hother
        rw [OrderedMap.get?_erase] at hget
        split at hget
        · cases hget
        · exact .inr ⟨other, OrderedMap.mem_keys_of_get? hget, rfl⟩
  filled name type hget := by
    rw [OrderedMap.get?_insert] at hget
    split at hget
    · rw [← Option.some.inj hget]
      exact .inl hfilled
    · next hne =>
      -- The announced mirror has no field yet, but it stands under the name that was written.
      refine (h.filled name type hget).imp_right fun hbefore => ?_
      rwa [OrderedMap.get?_insert_of_ne hne] at hbefore
  closed hclosed := by
    have hannounced : Closed words
        (before.insert (Naming.inputType object) ⟨Naming.inputType object, ∅⟩) :=
      hclosed.insert fun _ harg => absurd harg List.not_mem_nil
    exact (h.closed hannounced).insert fun arg harg => (hfields arg harg).mono fun _ hmem =>
      OrderedMap.mem_keys_insert.2 (.inr hmem)

end Extends

/-! ### Visiting -/

section Spec

variable {words : Vocabulary} (objects : OrderedMap String ObjectType)

mutual

/-- Building a mirror extends the mirrors by it, or leaves them alone when there is none. -/
theorem mirror_spec (available : OrderedMap String ObjectType) (hspeaks : Speaks words available)
    (object : String) (mirrors : Mirrors) :
    let result := (mirror objects available object).run mirrors
    Extends words available mirrors result.2 ∧ (∀ name, result.1 = some name → name ∈ result.2.keys) ∧
      (result.1 = none → result.2 = mirrors) := by
  rw [run_mirror]
  by_cases hcontains : mirrors.contains (Naming.inputType object)
  · rw [if_pos hcontains]
    refine ⟨.refl, fun name h => ?_, fun h => by cases h⟩
    rw [← Option.some.inj h]
    exact OrderedMap.contains_iff.1 hcontains
  · rw [if_neg hcontains]
    cases hfound : available.get? object with
    | none => exact ⟨.refl, fun _ h => (by cases h), fun _ => rfl⟩
    | some source =>
      have hnew : Naming.inputType object ∉ mirrors.keys :=
        fun h => hcontains (OrderedMap.contains_iff.2 h)
      have hobject : object ∈ available.keys := OrderedMap.mem_keys_of_get? hfound
      let announced := mirrors.insert (Naming.inputType object) ⟨Naming.inputType object, ∅⟩
      -- Inside, the object is announced and no longer available, so the search goes on in fewer
      -- objects.
      obtain ⟨hextends, hvalues, hempty⟩ := mirrorFields_spec (available.erase object)
        (hspeaks.erase object) source.fields.values (hspeaks object source hfound) ∅ announced
      dsimp only
      split
      · next h =>
        refine ⟨?_, fun _ h => (by cases h), fun _ => ?_⟩
        · rw [(hempty h).2, OrderedMap.erase_insert_of_notMem hnew]
          exact .refl
        · rw [(hempty h).2]
          exact OrderedMap.erase_insert_of_notMem hnew
      · next hfilled =>
        refine ⟨.announce hobject hextends (fun arg harg => ?_) (by simpa using hfilled),
          fun name h => ?_, fun h => by cases h⟩
        · exact (hvalues arg harg).resolve_left List.not_mem_nil
        · rw [← Option.some.inj h]
          exact OrderedMap.mem_keys_insert.2 (.inl rfl)
termination_by (available.size, 0, 0)
decreasing_by exact Prod.Lex.left _ _ (OrderedMap.size_erase_lt hfound)

/-- Fields without a match leave the mirrors alone. -/
theorem mirrorFields_spec (available : OrderedMap String ObjectType)
    (hspeaks : Speaks words available) (fields : List OutputField)
    (hfields : ∀ field ∈ fields, field.type.Uses words) (mirrored : OrderedMap String ArgType)
    (mirrors : Mirrors) :
    let result := (mirrorFields objects available fields mirrored).run mirrors
    Extends words available mirrors result.2 ∧
      (∀ arg ∈ result.1.values, arg ∈ mirrored.values ∨ arg.Uses words result.2) ∧
      (result.1.isEmpty → mirrored.isEmpty ∧ result.2 = mirrors) :=
  match fields with
  | [] => by
    rw [mirrorFields]
    exact ⟨.refl, fun _ h => .inl h, fun h => ⟨h, rfl⟩⟩
  | field :: rest => by
    obtain ⟨hfirst, huses, hnone⟩ := inputType_spec available hspeaks field.type
      (hfields field (List.mem_cons_self ..)) mirrors
    have hrest := mirrorFields_spec available hspeaks rest fun other hother =>
      hfields other (List.mem_cons_of_mem _ hother)
    rw [run_mirrorFields_cons]
    cases htype : ((inputType objects available field.type).run mirrors).1 with
    | none =>
      obtain ⟨hextends, hvalues, hempty⟩ := hrest mirrored mirrors
      simp only [htype, hnone htype]
      exact ⟨hextends, hvalues, hempty⟩
    | some type =>
      obtain ⟨hextends, hvalues, hempty⟩ := hrest (mirrored.insert field.name type)
        ((inputType objects available field.type).run mirrors).2
      simp only [htype]
      refine ⟨hfirst.trans hextends, fun arg harg => ?_, fun h => ?_⟩
      · rcases hvalues arg harg with harg | harg
        · rcases OrderedMap.mem_values_insert harg with rfl | harg
          · exact .inr ((huses arg htype).mono hextends.stay)
          · exact .inl harg
        · exact .inr harg
      · have hinsert := (hempty h).1
        rw [OrderedMap.isEmpty_insert] at hinsert
        cases hinsert
termination_by (available.size, 2, fields.length)

/-- A type without a match leaves the mirrors alone. -/
theorem inputType_spec (available : OrderedMap String ObjectType)
    (hspeaks : Speaks words available) (type : FieldType) (htype : type.Uses words)
    (mirrors : Mirrors) :
    let result := (inputType objects available type).run mirrors
    Extends words available mirrors result.2 ∧
      (∀ arg, result.1 = some arg → arg.Uses words result.2) ∧
      (result.1 = none → result.2 = mirrors) :=
  match type with
  | .nonNull inner => by
    rw [inputType]
    exact inputType_spec available hspeaks inner htype mirrors
  | .list element => by
    obtain ⟨hextends, huses, hnone⟩ := inputType_spec available hspeaks element htype mirrors
    rw [run_inputType_list]
    refine ⟨hextends, fun arg h => ?_, fun h => hnone (Option.map_eq_none_iff.1 h)⟩
    obtain ⟨inner, hinner, rfl⟩ := Option.map_eq_some_iff.1 h
    exact huses inner hinner
  | .scalar kind => by
    rw [inputType]
    refine ⟨.refl, fun arg h => ?_, fun _ => rfl⟩
    cases h
    exact .scalar words mirrors kind
  | .enum name => by
    rw [inputType]
    refine ⟨.refl, fun arg h => ?_, fun _ => rfl⟩
    cases h
    exact .inr (.inl htype)
  | .object name => by
    obtain ⟨hextends, hmem, hnone⟩ := mirror_spec available hspeaks name mirrors
    rw [run_inputType_object]
    cases hmirror : ((mirror objects available name).run mirrors).1 with
    | some mirror =>
      simp only [hmirror]
      refine ⟨hextends, fun arg h => ?_, fun h => by cases h⟩
      cases h
      exact .inr (.inr (hmem mirror hmirror))
    | none =>
      simp only [hmirror]
      refine ⟨hextends, fun arg h => ?_, fun _ => hnone hmirror⟩
      -- An object that is not there at all, such as a root, is matched by its id.
      split at h
      · cases h
      · cases h
        exact .scalar words _ .id
  | .unresolved slot => by
    rw [inputType]
    refine ⟨.refl, fun arg h => ?_, fun _ => rfl⟩
    obtain ⟨owner, path, target, cardinality, nonNull⟩ := slot
    cases cardinality <;> cases h <;> exact .scalar words mirrors .id
  | .connection name => by
    rw [inputType]
    exact ⟨.refl, fun _ h => (by cases h), fun _ => rfl⟩
termination_by (available.size, 1, sizeOf type)

end

end Spec

end Mirrors

namespace Arguments

theorem uses_comparison (words : Vocabulary) (mirrors : Mirrors) {element : String}
    (h : (ArgType.named element).Uses words mirrors) :
    ∀ arg ∈ comparison element, arg.type.Uses words mirrors := by
  have hbuiltIn : ∀ name, isBuiltIn name = true → (ArgType.named name).Uses words mirrors :=
    fun name hname => .inl hname
  intro arg harg
  rcases List.mem_append.1 harg with harg | harg
  · obtain ⟨name, -, rfl⟩ := List.mem_map.1 harg
    split <;> exact h
  · simp only [List.mem_cons, List.not_mem_nil, or_false] at harg
    rcases harg with rfl | rfl | rfl
    · exact hbuiltIn _ (by decide)
    · exact hbuiltIn _ (by decide)
    · exact hbuiltIn _ (by decide)

theorem uses_array (words : Vocabulary) (mirrors : Mirrors) {mirror : Option String}
    (h : ∀ name, mirror = some name → name ∈ mirrors.keys) :
    ∀ arg ∈ array mirror, arg.type.Uses words mirrors := by
  have hint : (ArgType.named OutputScalar.int.name).Uses words mirrors := .scalar _ _ _
  intro arg harg
  cases mirror with
  | none =>
    obtain rfl := List.mem_singleton.1 harg
    exact hint
  | some name =>
    have hname : (ArgType.named name).Uses words mirrors := .inr (.inr (h name rfl))
    simp only [array, List.mem_cons, List.not_mem_nil, or_false] at harg
    rcases harg with rfl | rfl | rfl
    · exact hname
    · exact hint
    · exact hname

/-- Deriving the arguments of a field extends the mirrors, and the arguments mention such that
stay. -/
theorem derive_spec {words : Vocabulary} {objects : OrderedMap String ObjectType}
    (hspeaks : Speaks words objects) {type : FieldType} (htype : type.Uses words)
    (mirrors : Mirrors) :
    let result := (derive objects type).run mirrors
    Mirrors.Extends words objects mirrors result.2 ∧
      ∀ arg ∈ result.1, arg.type.Uses words result.2 := by
  have hnone : ∀ args : List Argument, (∀ arg ∈ args, arg.type.Uses words mirrors) →
      Mirrors.Extends words objects mirrors mirrors ∧
        ∀ arg ∈ args, arg.type.Uses words mirrors := fun args h => ⟨.refl, h⟩
  have hnullable := htype.nullable
  rw [derive]
  cases hcore : type.nullable with
  | scalar kind => exact hnone _ (uses_comparison words mirrors (.scalar words mirrors kind))
  | enum name =>
    rw [hcore] at hnullable
    exact hnone _ (uses_comparison words mirrors (.inr (.inl hnullable)))
  | object _ | connection _ | nonNull _ | unresolved _ =>
    exact hnone _ fun _ h => absurd h List.not_mem_nil
  | list element =>
    rw [hcore] at hnullable
    have helement : element.nullable.Uses words := FieldType.Uses.nullable hnullable
    dsimp only
    cases hinner : element.nullable with
    | scalar kind => exact hnone _ (uses_comparison words mirrors (.scalar words mirrors kind))
    | enum name =>
      rw [hinner] at helement
      exact hnone _ (uses_comparison words mirrors (.inr (.inl helement)))
    | list _ | connection _ | nonNull _ | unresolved _ =>
      exact hnone _ fun _ h => absurd h List.not_mem_nil
    | object name =>
      obtain ⟨hextends, hmem, -⟩ := Mirrors.mirror_spec objects objects hspeaks name mirrors
      exact ⟨hextends, uses_array words _ hmem⟩

end Arguments

end ModelGraph
