import ModelGraph.Proofs.Graph.Bounded
import ModelGraph.Proofs.Naming
import Mathlib.Order.Bounds.Basic
import Mathlib.Data.Set.Lattice

/-!
# Which objects have mirrors, and what is in them

An object has a mirror when one of its fields can be matched. A field of an object type can be
matched when that object can, so objects that contain each other may all have mirrors, or none:
those that have one are the largest set in which each object has a field that can be matched once
the objects of the set can. A search starts while other objects are announced already and takes
these for objects that can be matched. It is right about them: an object whose mirror is taken back
leaves no trace, and an object whose mirror stays can be matched without being assumed to.

So a mirror depends on the object types only, and not on what was searched before.

## Main definitions

- `FieldType.Matchable`, `FieldType.input` — which types can be matched, and by which input
- `Mirrors.mirrorable` — the largest set of objects that can be matched
- `Mirrors.mirrorOf` — the mirror of an object in terms of such a set
- `Mirrors.promised` — the objects that can be matched if the announced ones can
- `Mirrors.Visits` — what a search does to the mirrors

## Main statements

- `Mirrors.mirror_visits` — which object has a mirror, while some are announced
- `Mirrors.mapM_derive_visits` — what deriving a list of types gives
-/

namespace ModelGraph

namespace FieldType

/-- Whether values of a type can be matched when those of the objects of a set can. -/
def Matchable (objects : OrderedMap String ObjectType) (set : Set String) (type : FieldType) :
    Prop :=
  match type.innermost with
  | .scalar _ | .enum _ | .unresolved _ => True
  | .object name => name ∉ objects.keys ∨ name ∈ set
  | .connection _ | .list _ | .nonNull _ => False

/-- The input that matches values of a type, if any can; objects that are not known are matched by
their id. -/
def input (objects : OrderedMap String ObjectType) : FieldType → ArgType
  | .scalar kind => .named kind.name
  | .enum name | .connection name => .named name
  | .object name =>
    .named (if objects.contains name then Naming.inputType name else OutputScalar.id.name)
  | .list element => .list (input objects element)
  | .nonNull inner => input objects inner
  | .unresolved slot =>
    match slot.cardinality with
    | .single => .named OutputScalar.id.name
    | .plural => .listOf OutputScalar.id.name

theorem Matchable.mono {objects : OrderedMap String ObjectType} {set larger : Set String}
    {type : FieldType} (h : type.Matchable objects set) (hsub : set ⊆ larger) :
    type.Matchable objects larger := by
  rw [Matchable] at h ⊢
  split at h
  · trivial
  · trivial
  · trivial
  · exact h.imp_right (@hsub _)
  · exact h
  · exact h
  · exact h

end FieldType

namespace Mirrors

variable (objects : OrderedMap String ObjectType)

/-! ### The objects that can be matched -/

/-- Whether each object of a set has a field that can be matched when the objects of the set can. -/
def Sustained (set : Set String) : Prop :=
  ∀ object ∈ set, ∃ source, objects.get? object = some source ∧
    ∃ field ∈ source.fields.values, field.type.Matchable objects set

/-- The objects that can be matched: those of all sets that sustain themselves. -/
def mirrorable : Set String := ⋃₀ {set | Sustained objects set}

open Classical in
/-- The fields that can be matched when the objects of a set can, with their inputs. -/
noncomputable def matched (set : Set String) (fields : List OutputField) :
    List (String × ArgType) :=
  (fields.filter fun field => field.type.Matchable objects set).map
    fun field => (field.name, field.type.input objects)

/-- The mirror of an object when the objects of a set can be matched. -/
noncomputable def mirrorOf (set : Set String) (object : String) (source : ObjectType) : InputType :=
  ⟨Naming.inputType object, .ofList (matched objects set source.fields.values)⟩

/-- Whether each object of a set is announced or has a field that can be matched when the objects
of the set can. -/
def SustainedBy (announced set : Set String) : Prop :=
  ∀ object ∈ set, ∃ source, objects.get? object = some source ∧
    (object ∉ announced → ∃ field ∈ source.fields.values, field.type.Matchable objects set)

/-- The objects that can be matched if the announced ones can. -/
def promised (announced : Set String) : Set String := ⋃₀ {set | SustainedBy objects announced set}

section Promised

variable {objects} {announced larger : Set String} {object : String} {source : ObjectType}

/-- The objects that can be matched are themselves a set that sustains itself, the largest one. -/
theorem isGreatest_mirrorable : IsGreatest {set | Sustained objects set} (mirrorable objects) := by
  refine ⟨fun object hobject => ?_, fun set hset => Set.subset_sUnion_of_mem hset⟩
  obtain ⟨set, hset, hmem⟩ := hobject
  obtain ⟨source, hget, field, hfield, hmatch⟩ := hset object hmem
  exact ⟨source, hget, field, hfield, hmatch.mono (Set.subset_sUnion_of_mem hset)⟩

theorem promised_empty : promised objects ∅ = mirrorable objects := by
  simp [promised, mirrorable, SustainedBy, Sustained]

theorem sustainedBy_promised : SustainedBy objects announced (promised objects announced) := by
  rintro object ⟨set, hset, hmem⟩
  obtain ⟨source, hget, hfields⟩ := hset object hmem
  refine ⟨source, hget, fun hnew => ?_⟩
  obtain ⟨field, hfield, hmatch⟩ := hfields hnew
  exact ⟨field, hfield, hmatch.mono (Set.subset_sUnion_of_mem hset)⟩

theorem subset_promised {set : Set String} (h : SustainedBy objects announced set) :
    set ⊆ promised objects announced :=
  Set.subset_sUnion_of_mem h

theorem promised_mono (h : announced ⊆ larger) :
    promised objects announced ⊆ promised objects larger := by
  refine subset_promised fun object hobject => ?_
  obtain ⟨source, hget, hfields⟩ := sustainedBy_promised object hobject
  exact ⟨source, hget, fun hnew => hfields fun hmem => hnew (h hmem)⟩

theorem mem_promised_insert (hget : objects.get? object = some source) :
    object ∈ promised objects (insert object announced) := by
  have hself : SustainedBy objects (insert object announced) {object} := by
    rintro _ rfl
    exact ⟨source, hget, fun hnew => absurd (Set.mem_insert _ _) hnew⟩
  exact subset_promised hself rfl

/-- An announced object with a field that can be matched need not have been announced. -/
theorem promised_insert (hget : objects.get? object = some source)
    (hmatch : ∃ field ∈ source.fields.values,
      field.type.Matchable objects (promised objects (insert object announced))) :
    promised objects (insert object announced) = promised objects announced := by
  refine Set.Subset.antisymm (subset_promised fun other hother => ?_)
    (promised_mono (Set.subset_insert _ _))
  obtain ⟨found, hfound, hfields⟩ := sustainedBy_promised other hother
  refine ⟨found, hfound, fun hnew => ?_⟩
  by_cases heq : other = object
  · rw [heq, hget] at hfound
    rw [← Option.some.inj hfound]
    exact hmatch
  · exact hfields fun hmem => hnew ((Set.mem_insert_iff.1 hmem).resolve_left heq)

/-- An object can be matched when one of its fields can once it is announced. -/
theorem mem_promised_iff (hget : objects.get? object = some source) (hnew : object ∉ announced) :
    object ∈ promised objects announced ↔ ∃ field ∈ source.fields.values,
      field.type.Matchable objects (promised objects (insert object announced)) := by
  constructor
  · intro hmem
    obtain ⟨found, hfound, hfields⟩ := sustainedBy_promised object hmem
    rw [hget] at hfound
    rw [Option.some.inj hfound]
    obtain ⟨field, hfield, hmatch⟩ := hfields hnew
    exact ⟨field, hfield, hmatch.mono (promised_mono (Set.subset_insert _ _))⟩
  · intro hmatch
    rw [← promised_insert hget hmatch]
    exact mem_promised_insert hget

end Promised

/-! ### What a search does to the mirrors -/

/-- Whether there are mirrors for the announced objects, and only for those that can be matched if
the announced ones can. -/
structure Honest (announced : Set String) (mirrors : Mirrors) : Prop where
  covers : ∀ object ∈ announced, Naming.inputType object ∈ mirrors.keys
  promised : ∀ name ∈ mirrors.keys, ∃ object ∈ Mirrors.promised objects announced,
    name = Naming.inputType object

/-- Whether the mirrors of all but the announced objects hold just the fields that can be matched
if the announced objects can. -/
def Canonical (announced : Set String) (mirrors : Mirrors) : Prop :=
  ∀ object mirror, mirrors.get? (Naming.inputType object) = some mirror → object ∉ announced →
    ∃ source, objects.get? object = some source ∧
      mirror = mirrorOf objects (promised objects announced) object source

/-- What a search does to the mirrors while some objects are announced: those before stay as they
are, and new ones are mirrors of objects that can be matched, with the fields that can be. -/
structure Visits (announced : Set String) (before after : Mirrors) : Prop where
  honest : Honest objects announced after
  kept : ∀ name mirror, before.get? name = some mirror → after.get? name = some mirror
  fresh : ∀ object mirror, after.get? (Naming.inputType object) = some mirror →
    object ∉ announced → before.get? (Naming.inputType object) = some mirror ∨
      ∃ source, objects.get? object = some source ∧
        mirror = mirrorOf objects (promised objects announced) object source

section Visits

variable {objects} {announced : Set String} {before middle after : Mirrors} {object : String}
  {source : ObjectType}

theorem Honest.mem_promised (h : Honest objects announced before)
    (hmem : Naming.inputType object ∈ before.keys) : object ∈ Mirrors.promised objects announced := by
  obtain ⟨other, hother, heq⟩ := h.promised _ hmem
  rwa [Naming.inputType_inj heq]

theorem Honest.announce (h : Honest objects announced before)
    (hget : objects.get? object = some source) (mirror : InputType) :
    Honest objects (insert object announced)
      (before.insert (Naming.inputType object) mirror) where
  covers other hother := by
    rcases Set.mem_insert_iff.1 hother with rfl | hother
    · exact OrderedMap.mem_keys_insert.2 (.inl rfl)
    · exact OrderedMap.mem_keys_insert.2 (.inr (h.covers other hother))
  promised name hname := by
    rcases OrderedMap.mem_keys_insert.1 hname with rfl | hname
    · exact ⟨object, mem_promised_insert hget, rfl⟩
    · obtain ⟨other, hother, rfl⟩ := h.promised name hname
      exact ⟨other, promised_mono (Set.subset_insert _ _) hother, rfl⟩

theorem Visits.refl (h : Honest objects announced before) :
    Visits objects announced before before :=
  ⟨h, fun _ _ hget => hget, fun _ _ hget _ => .inl hget⟩

theorem Visits.trans (h : Visits objects announced before middle)
    (h' : Visits objects announced middle after) : Visits objects announced before after where
  honest := h'.honest
  kept name mirror hget := h'.kept name mirror (h.kept name mirror hget)
  fresh object mirror hget hnew := by
    rcases h'.fresh object mirror hget hnew with hmiddle | hmirror
    · exact h.fresh object mirror hmiddle hnew
    · exact .inr hmirror

/-- Mirrors that hold just the fields that can be matched stay so. -/
theorem Visits.canonical (h : Visits objects announced before after)
    (hcanonical : Canonical objects announced before) : Canonical objects announced after := by
  intro object mirror hget hnew
  rcases h.fresh object mirror hget hnew with hbefore | hmirror
  · exact hcanonical object mirror hbefore hnew
  · exact hmirror

theorem Visits.stay (h : Visits objects announced before after) :
    ∀ name ∈ before.keys, name ∈ after.keys := by
  intro name hname
  obtain ⟨mirror, hget⟩ := OrderedMap.mem_keys_iff.1 hname
  exact OrderedMap.mem_keys_of_get? (h.kept name mirror hget)

/-- An announced object that can be matched gets its mirror. -/
theorem Visits.announce (hget : objects.get? object = some source)
    (hnew : Naming.inputType object ∉ before.keys)
    (hmatch : ∃ field ∈ source.fields.values,
      field.type.Matchable objects (promised objects (insert object announced)))
    (h : Visits objects (insert object announced)
      (before.insert (Naming.inputType object) ⟨Naming.inputType object, ∅⟩) after) :
    Visits objects announced before (after.insert (Naming.inputType object)
      (mirrorOf objects (promised objects (insert object announced)) object source)) := by
  have hsame := promised_insert hget hmatch
  refine ⟨⟨fun other hother => ?_, fun name hname => ?_⟩, fun name mirror hbefore => ?_,
    fun other mirror hafter hother => ?_⟩
  · exact OrderedMap.mem_keys_insert.2 (.inr (h.honest.covers other (.inr hother)))
  · rcases OrderedMap.mem_keys_insert.1 hname with rfl | hname
    · exact ⟨object, hsame ▸ mem_promised_insert hget, rfl⟩
    · obtain ⟨other, hother, rfl⟩ := h.honest.promised name hname
      exact ⟨other, hsame ▸ hother, rfl⟩
  · have hne : Naming.inputType object ≠ name := by
      rintro rfl
      exact hnew (OrderedMap.mem_keys_of_get? hbefore)
    rw [OrderedMap.get?_insert_of_ne hne]
    exact h.kept name mirror (by rwa [OrderedMap.get?_insert_of_ne hne])
  · by_cases heq : other = object
    · rw [heq, OrderedMap.get?_insert_self] at hafter
      rw [heq, ← hsame]
      exact .inr ⟨source, hget, (Option.some.inj hafter).symm⟩
    · have hne : Naming.inputType object ≠ Naming.inputType other :=
        fun hname => heq (Naming.inputType_inj hname).symm
      -- Nothing changes for the other mirrors: the same objects can be matched as before.
      have hfresh := h.fresh other mirror (by rwa [OrderedMap.get?_insert_of_ne hne] at hafter)
        fun hmem => hother ((Set.mem_insert_iff.1 hmem).resolve_left heq)
      rwa [OrderedMap.get?_insert_of_ne hne, hsame] at hfresh

end Visits

/-! ### Searching -/

section Search

theorem isEmpty_matched_iff {set : Set String} {fields : List OutputField} :
    (OrderedMap.ofList (matched objects set fields)).isEmpty = true ↔
      ¬ ∃ field ∈ fields, field.type.Matchable objects set := by
  simp [OrderedMap.isEmpty_ofList_iff, matched]

open Classical in
mutual

/-- An object gets a mirror when it can be matched if the announced ones can. -/
theorem mirror_visits (available : OrderedMap String ObjectType) {announced : Set String}
    {mirrors : Mirrors} (hleaves : Leaves objects available mirrors)
    (hhonest : Honest objects announced mirrors) (object : String) :
    let result := (mirror objects available object).run mirrors
    result.1 = (if object ∈ promised objects announced then some (Naming.inputType object)
      else none) ∧ Visits objects announced mirrors result.2 := by
  rw [run_mirror]
  by_cases hcontains : mirrors.contains (Naming.inputType object)
  · have hmem := hhonest.mem_promised (OrderedMap.contains_iff.1 hcontains)
    rw [if_pos hcontains, if_pos hmem]
    exact ⟨rfl, .refl hhonest⟩
  · have hnew : Naming.inputType object ∉ mirrors.keys :=
      fun hmem => hcontains (OrderedMap.contains_iff.2 hmem)
    have hget := hleaves object hnew
    rw [if_neg hcontains]
    cases hfound : available.get? object with
    | none =>
      have hunknown : object ∉ promised objects announced := by
        intro hmem
        obtain ⟨source, hsource, -⟩ := sustainedBy_promised object hmem
        rw [← hget, hfound] at hsource
        cases hsource
      rw [if_neg hunknown]
      exact ⟨rfl, .refl hhonest⟩
    | some source =>
      have hsource : objects.get? object = some source := by rw [← hget, hfound]
      have hfresh : object ∉ announced := fun hmem => hnew (hhonest.covers object hmem)
      obtain ⟨hfields, hvisits⟩ := mirrorFields_visits (available.erase object)
        (hleaves.announce object ⟨_, ∅⟩) (hhonest.announce hsource _) source.fields.values ∅
      have hempty := (mirrorFields_spec objects (available.erase object)
        (speaks_everyName _) source.fields.values (fun field _ => uses_everyName field.type) ∅
        (mirrors.insert (Naming.inputType object) ⟨Naming.inputType object, ∅⟩)).2.2
      dsimp only at hfields ⊢
      split
      · next h =>
        -- Without a field to match, the object leaves no trace.
        rw [(hempty h).2, OrderedMap.erase_insert_of_notMem hnew]
        rw [hfields] at h
        have hnone := (isEmpty_matched_iff objects).1 h
        rw [if_neg fun hmem => hnone ((mem_promised_iff hsource hfresh).1 hmem)]
        exact ⟨rfl, .refl hhonest⟩
      · next h =>
        have hsome : ∃ field ∈ source.fields.values,
            field.type.Matchable objects (promised objects (insert object announced)) := by
          by_contra hnone
          rw [hfields] at h
          exact h ((isEmpty_matched_iff objects).2 hnone)
        rw [if_pos ((mem_promised_iff hsource hfresh).2 hsome), hfields]
        exact ⟨rfl, hvisits.announce hsource hnew hsome⟩
termination_by (available.size, 0, 0)
decreasing_by exact Prod.Lex.left _ _ (OrderedMap.size_erase_lt hfound)

/-- The fields that get an input are those that can be matched. -/
theorem mirrorFields_visits (available : OrderedMap String ObjectType) {announced : Set String}
    {mirrors : Mirrors} (hleaves : Leaves objects available mirrors)
    (hhonest : Honest objects announced mirrors) (fields : List OutputField)
    (mirrored : OrderedMap String ArgType) :
    let result := (mirrorFields objects available fields mirrored).run mirrors
    result.1 = mirrored.insertMany (matched objects (promised objects announced) fields) ∧
      Visits objects announced mirrors result.2 :=
  match fields with
  | [] => by
    rw [mirrorFields]
    exact ⟨rfl, .refl hhonest⟩
  | field :: rest => by
    obtain ⟨htype, hfirst⟩ := inputType_visits available hleaves hhonest field.type
    have hrest := mirrorFields_visits available (hleaves.mono hfirst.stay) hfirst.honest rest
    rw [run_mirrorFields_cons]
    dsimp only at htype ⊢
    rw [htype]
    by_cases hmatch : field.type.Matchable objects (promised objects announced)
    · obtain ⟨hfields, hvisits⟩ := hrest (mirrored.insert field.name (field.type.input objects))
      rw [if_pos hmatch]
      refine ⟨?_, hfirst.trans hvisits⟩
      simp only [matched, List.filter_cons, hmatch, decide_true, if_true, List.map_cons,
        OrderedMap.insertMany_cons]
      exact hfields
    · obtain ⟨hfields, hvisits⟩ := hrest mirrored
      rw [if_neg hmatch]
      refine ⟨?_, hfirst.trans hvisits⟩
      simp only [matched, List.filter_cons, hmatch, decide_false, Bool.false_eq_true, if_false]
      exact hfields
termination_by (available.size, 2, fields.length)

/-- A type that can be matched gets its input. -/
theorem inputType_visits (available : OrderedMap String ObjectType) {announced : Set String}
    {mirrors : Mirrors} (hleaves : Leaves objects available mirrors)
    (hhonest : Honest objects announced mirrors) (type : FieldType) :
    let result := (inputType objects available type).run mirrors
    result.1 = (if type.Matchable objects (promised objects announced)
      then some (type.input objects) else none) ∧ Visits objects announced mirrors result.2 :=
  match type with
  | .nonNull inner => by
    rw [inputType]
    exact inputType_visits available hleaves hhonest inner
  | .list element => by
    obtain ⟨htype, hvisits⟩ := inputType_visits available hleaves hhonest element
    rw [run_inputType_list]
    refine ⟨?_, hvisits⟩
    dsimp only at htype ⊢
    rw [htype, Option.map_if]
    rfl
  | .object name => by
    obtain ⟨hmirror, hvisits⟩ := mirror_visits available hleaves hhonest name
    rw [run_inputType_object]
    dsimp only at hmirror ⊢
    rw [hmirror]
    by_cases hmem : name ∈ promised objects announced
    · have hknown : objects.contains name := by
        obtain ⟨source, hget, -⟩ := sustainedBy_promised name hmem
        exact OrderedMap.contains_iff.2 (OrderedMap.mem_keys_of_get? hget)
      have hmatch : (FieldType.object name).Matchable objects (promised objects announced) :=
        .inr hmem
      rw [if_pos hmem]
      refine ⟨?_, hvisits⟩
      simp only [if_pos hmatch, FieldType.input, if_pos hknown]
    · rw [if_neg hmem]
      refine ⟨?_, hvisits⟩
      by_cases hknown : objects.contains name
      · have hnone : ¬ (FieldType.object name).Matchable objects (promised objects announced) :=
          fun h => h.elim (fun hout => hout (OrderedMap.contains_iff.1 hknown)) hmem
        simp only [if_neg hnone, if_pos hknown]
      · have hmatch : (FieldType.object name).Matchable objects (promised objects announced) :=
          .inl fun hin => hknown (OrderedMap.contains_iff.2 hin)
        simp only [if_pos hmatch, FieldType.input, if_neg hknown]
  | .scalar _ | .enum _ => by
    rw [inputType]
    exact ⟨(if_pos trivial).symm, .refl hhonest⟩
  | .unresolved slot => by
    rw [inputType]
    refine ⟨?_, .refl hhonest⟩
    rw [if_pos (show (FieldType.unresolved slot).Matchable objects _ from trivial)]
    rfl
  | .connection _ => by
    rw [inputType]
    exact ⟨(if_neg fun h => h).symm, .refl hhonest⟩
termination_by (available.size, 1, sizeOf type)

end

end Search

theorem honest_empty : Honest objects ∅ (∅ : Mirrors) where
  covers _ hobject := absurd hobject (Set.notMem_empty _)
  promised _ hname := absurd hname List.not_mem_nil

theorem canonical_empty : Canonical objects ∅ (∅ : Mirrors) :=
  fun _ _ hget => by cases hget

end Mirrors

/-- The object that a type lists, possibly without null. -/
def FieldType.listedObject? (type : FieldType) : Option String :=
  match type.nullable with
  | .list element =>
    match element.nullable with
    | .object name => some name
    | _ => none
  | _ => none

namespace Arguments

open Mirrors (Sustained mirrorable mirrorOf promised_empty Visits Honest)

/-! ### Deriving -/

section Derive

variable {objects : OrderedMap String ObjectType} {mirrors : Mirrors}

theorem run_derive_listed {type : FieldType} {object : String}
    (h : type.listedObject? = some object) :
    (derive objects type).run mirrors =
      let found := (Mirrors.mirror objects objects object).run mirrors
      (array found.1, found.2) := by
  rw [derive]
  rw [FieldType.listedObject?] at h
  cases htype : type.nullable <;> rw [htype] at h <;> try cases h
  next element =>
    dsimp only at h ⊢
    cases helement : element.nullable <;> rw [helement] at h <;> cases h
    rfl

/-- A type that lists no object leaves the mirrors alone, and gets the same arguments always. -/
theorem run_derive_unlisted {type : FieldType} (h : type.listedObject? = none) :
    (derive objects type).run mirrors = (((derive objects type).run ∅).1, mirrors) := by
  rw [derive]
  rw [FieldType.listedObject?] at h
  cases htype : type.nullable <;> try rfl
  next element =>
    rw [htype] at h
    dsimp only at h ⊢
    cases helement : element.nullable <;> try rfl
    rw [helement] at h
    cases h

open Classical in
/-- An object that is listed has a mirror when it can be matched. -/
theorem run_mirror_of_honest (hhonest : Honest objects ∅ mirrors) (object : String) :
    let found := (Mirrors.mirror objects objects object).run mirrors
    found.1 = (if object ∈ mirrorable objects then some (Naming.inputType object) else none) ∧
      Visits objects ∅ mirrors found.2 := by
  have hvisits := Mirrors.mirror_visits objects objects (fun _ _ => rfl) hhonest object
  rwa [promised_empty] at hvisits

theorem derive_visits (hhonest : Honest objects ∅ mirrors) (type : FieldType) :
    let result := (derive objects type).run mirrors
    result.1 = ((derive objects type).run ∅).1 ∧ Visits objects ∅ mirrors result.2 := by
  cases h : type.listedObject? with
  | none =>
    rw [run_derive_unlisted h]
    exact ⟨rfl, .refl hhonest⟩
  | some object =>
    obtain ⟨hfound, hvisits⟩ := run_mirror_of_honest hhonest object
    obtain ⟨hfresh, -⟩ := run_mirror_of_honest (Mirrors.honest_empty objects) object
    rw [run_derive_listed h, run_derive_listed h]
    refine ⟨?_, hvisits⟩
    dsimp only at hfound hfresh ⊢
    rw [hfound, hfresh]

theorem mapM_derive_visits (hhonest : Honest objects ∅ mirrors) (types : List FieldType) :
    let result := (types.mapM (derive objects)).run mirrors
    result.1 = types.map (fun type => ((derive objects type).run ∅).1) ∧
      Visits objects ∅ mirrors result.2 := by
  induction types generalizing mirrors with
  | nil => exact ⟨rfl, .refl hhonest⟩
  | cons type rest ih =>
    obtain ⟨hargs, hfirst⟩ := derive_visits hhonest type
    obtain ⟨hrest, hvisits⟩ := ih hfirst.honest
    rw [List.mapM_cons]
    exact ⟨congrArg₂ List.cons hargs hrest, hfirst.trans hvisits⟩

/-- A mirror that is built for arguments is that of an object in the largest set that sustains
itself. -/
theorem eq_mirrorOf_of_mapM_derive (types : List FieldType) {name : String} {mirror : InputType}
    (hget : ((types.mapM (derive objects)).run ∅).2.get? name = some mirror) :
    ∃ object ∈ mirrorable objects, ∃ source, name = Naming.inputType object ∧
      objects.get? object = some source ∧
        mirror = mirrorOf objects (mirrorable objects) object source := by
  obtain ⟨-, hvisits⟩ := mapM_derive_visits (Mirrors.honest_empty objects) types
  obtain ⟨object, hobject, rfl⟩ :=
    hvisits.honest.promised name (OrderedMap.mem_keys_of_get? hget)
  obtain ⟨source, hsource, hmirror⟩ := hvisits.canonical (Mirrors.canonical_empty objects) object
    mirror hget (Set.notMem_empty _)
  rw [promised_empty] at hobject hmirror
  exact ⟨object, hobject, source, rfl, hsource, hmirror⟩

end Derive

/-- Mirrors are canonical. Over any object types, deriving the arguments of a list of field types
comes to an end, at a depth of calls that the object types bound; the arguments of each type are
those it gets on its own; and two lists agree on the mirrors that both have. The mirrors are those
of objects in the largest set that sustains itself, each with just the fields that can be matched.
Deriving one more type changes none of them, and if it lists an object, the object has a mirror
afterwards when it is in that set, which the arguments name. -/
theorem derive_canonical (objects : OrderedMap String ObjectType) (first second : List FieldType) :
    let one := (first.mapM (derive objects)).run ∅
    let other := (second.mapM (derive objects)).run ∅
    (∀ bound, Mirrors.allSteps objects < bound →
      (first.mapM (deriveWithin objects bound)).run ∅ = some one) ∧
    one.1 = first.map (fun type => ((derive objects type).run ∅).1) ∧
    (∀ name mirror twin, one.2.get? name = some mirror → other.2.get? name = some twin →
      mirror = twin) ∧
    IsGreatest {set | Sustained objects set} (mirrorable objects) ∧
    (∀ name mirror, one.2.get? name = some mirror → ∃ object ∈ mirrorable objects, ∃ source,
      name = Naming.inputType object ∧ objects.get? object = some source ∧
        mirror = mirrorOf objects (mirrorable objects) object source) ∧
    ∀ type,
      let next := (derive objects type).run one.2
      (∀ name mirror, one.2.get? name = some mirror → next.2.get? name = some mirror) ∧
      ∀ object, type.listedObject? = some object →
        (Naming.inputType object ∈ next.2.keys ↔ object ∈ mirrorable objects) ∧
        (object ∈ mirrorable objects → next.1 = array (some (Naming.inputType object))) ∧
        (object ∉ mirrorable objects → next.1 = array none) := by
  obtain ⟨hargs, hvisits⟩ := mapM_derive_visits (Mirrors.honest_empty objects) first
  refine ⟨fun bound hbound => mapM_deriveWithin_eq hbound first ∅, hargs,
    fun name mirror twin hone hother => ?_, Mirrors.isGreatest_mirrorable,
    fun name mirror hget => eq_mirrorOf_of_mapM_derive first hget, fun type => ?_⟩
  · obtain ⟨object, -, source, rfl, hsource, rfl⟩ := eq_mirrorOf_of_mapM_derive first hone
    obtain ⟨same, -, found, hname, hfound, rfl⟩ := eq_mirrorOf_of_mapM_derive second hother
    obtain rfl := Naming.inputType_inj hname
    rw [Option.some.inj (hsource.symm.trans hfound)]
  · obtain ⟨-, hnext⟩ := derive_visits hvisits.honest type
    refine ⟨hnext.kept, fun object hlisted => ?_⟩
    obtain ⟨hfound, hafter⟩ := run_mirror_of_honest hvisits.honest object
    have hmem := (Mirrors.mirror_spec objects objects (Mirrors.speaks_everyName objects) object
      ((first.mapM (derive objects)).run ∅).2).2.1
    rw [run_derive_listed hlisted]
    dsimp only at hfound hafter hmem ⊢
    refine ⟨⟨fun hkey => promised_empty ▸ hafter.honest.mem_promised hkey, fun hobject => ?_⟩,
      fun hobject => ?_, fun hobject => ?_⟩
    · exact hmem _ (by rw [hfound, if_pos hobject])
    · rw [hfound, if_pos hobject]
    · rw [hfound, if_neg hobject]

end Arguments

end ModelGraph
