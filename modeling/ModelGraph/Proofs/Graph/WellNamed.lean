import ModelGraph.Proofs.Graph.Build
import ModelGraph.Proofs.Naming

/-!
# Well-named fields

The path of a slot only leads back to its field when the declared names can be read back from the
path and siblings keep their names apart. Fields that are left out do not matter.

## Main definitions

- `FieldDecl.WellNamedAll` — visible fields have names that read back, and siblings different ones
- `KeptField.Proper` — the same of a kept field

## Main statements

- `KeptField.heads_keepAll` — what is kept of fields are visible ones, in order
- `KeptField.proper_keepAll` — what is kept of well-named fields is proper
- `KeptField.nodup_names_keepAll` — what is kept of well-named siblings has different names
-/

namespace ModelGraph

namespace FieldDecl

variable (settings : SynthSettings)

/-- What an output field takes over from a declared field. -/
def head (decl : FieldDecl) : FieldHead := ⟨decl.name, decl.nonNull, decl.description, decl.hooks⟩

/-- The visible ones of declared fields. -/
def visibleDecls (decls : List FieldDecl) : List FieldDecl :=
  decls.filter fun decl => !Arena.isExcluded settings decl.name decl.hidden

/-- The output names of the visible ones of declared fields. -/
def visibleNames (decls : List FieldDecl) : List String :=
  (visibleDecls settings decls).map fun decl => Naming.sanitize decl.name

mutual

/-- A field that is left out, or whose name reads back and whose shape is well-named. -/
def WellNamed : FieldDecl → Prop
  | ⟨name, content, _, isHidden, _, _⟩ =>
    Arena.isExcluded settings name isHidden = false → Path.IsSegment name ∧ WellNamedShape content

/-- A shape whose fields are well-named and have different output names. -/
def WellNamedShape : FieldShape FieldDecl → Prop
  | .scalar _ _ | .reference _ _ => True
  | .list element => WellNamedElement element
  | .nested decls | .embedded _ decls => (visibleNames settings decls).Nodup ∧ WellNamedAll decls

/-- An element shape whose fields are well-named and have different output names. -/
def WellNamedElement : ElementShape FieldDecl → Prop
  | .scalar _ _ => True
  | .nested decls | .embedded _ decls => (visibleNames settings decls).Nodup ∧ WellNamedAll decls

/-- Fields that are well-named, each for itself. -/
def WellNamedAll : List FieldDecl → Prop
  | [] => True
  | decl :: rest => WellNamed decl ∧ WellNamedAll rest

end

mutual

/-- Being well-named is decidable. -/
def decideWellNamed : (decl : FieldDecl) → Decidable (WellNamed settings decl)
  | ⟨name, content, _, isHidden, _, _⟩ =>
    have := decideWellNamedShape content
    inferInstanceAs (Decidable
      (Arena.isExcluded settings name isHidden = false →
        Path.IsSegment name ∧ WellNamedShape settings content))

def decideWellNamedShape : (content : FieldShape FieldDecl) →
    Decidable (WellNamedShape settings content)
  | .scalar _ _ | .reference _ _ => .isTrue trivial
  | .list element => decideWellNamedElement element
  | .nested decls | .embedded _ decls =>
    have := decideWellNamedAll decls
    inferInstanceAs (Decidable ((visibleNames settings decls).Nodup ∧ WellNamedAll settings decls))

def decideWellNamedElement : (element : ElementShape FieldDecl) →
    Decidable (WellNamedElement settings element)
  | .scalar _ _ => .isTrue trivial
  | .nested decls | .embedded _ decls =>
    have := decideWellNamedAll decls
    inferInstanceAs (Decidable ((visibleNames settings decls).Nodup ∧ WellNamedAll settings decls))

def decideWellNamedAll : (decls : List FieldDecl) → Decidable (WellNamedAll settings decls)
  | [] => .isTrue trivial
  | decl :: rest =>
    have := decideWellNamed decl
    have := decideWellNamedAll rest
    inferInstanceAs (Decidable (WellNamed settings decl ∧ WellNamedAll settings rest))

end

instance : DecidablePred (WellNamedAll settings) := decideWellNamedAll settings

end FieldDecl

namespace KeptField

open FieldDecl

theorem mem_referencesAll {kept : List KeptField} {reference : Reference} :
    reference ∈ referencesAll kept ↔ ∃ field ∈ kept, reference ∈ references field := by
  induction kept with
  | nil => simp [referencesAll]
  | cons first rest ih => simp [referencesAll, ih]

theorem trail_ne_nil {kept : KeptField} {reference : Reference} (h : reference ∈ references kept) :
    reference.trail ≠ [] := by
  cases kept with
  | value head type enums =>
    rw [references] at h
    cases h
  | reference head target cardinality =>
    rw [references] at h
    rw [List.mem_singleton.1 h]
    exact List.cons_ne_nil _ _
  | shape head inList object embedded fields =>
    rw [references] at h
    obtain ⟨inner, -, rfl⟩ := List.mem_map.1 h
    exact List.cons_ne_nil _ _

theorem distinctAll_iff {kept : List KeptField} :
    DistinctAll kept ↔ ∀ field ∈ kept, Distinct field := by
  induction kept with
  | nil => simp [DistinctAll]
  | cons first rest ih => simp [DistinctAll, ih]

/-- Siblings below a kept field have different output names, and the names on the way to its
references read back. -/
structure Proper (kept : KeptField) : Prop where
  distinct : Distinct kept
  segments : ∀ reference ∈ references kept, ∀ name ∈ reference.trail, Path.IsSegment name

theorem proper_value (head : FieldHead) (type : FieldType) (enums : List EnumType) :
    Proper (.value head type enums) where
  distinct := by
    rw [Distinct]
    trivial
  segments reference h := by
    rw [references] at h
    cases h

theorem proper_reference {head : FieldHead} (target : String) (cardinality : Cardinality)
    (hsource : Path.IsSegment head.source) : Proper (.reference head target cardinality) where
  distinct := by
    rw [Distinct]
    trivial
  segments reference h name hname := by
    rw [references, List.mem_singleton] at h
    subst h
    rw [List.mem_singleton.1 hname]
    exact hsource

theorem proper_shape {head : FieldHead} {fields : List KeptField} (inList : Bool)
    (object : String) (embedded : Bool) (hsource : Path.IsSegment head.source)
    (hnames : (fields.map name).Nodup) (hproper : ∀ field ∈ fields, Proper field) :
    Proper (.shape head inList object embedded fields) where
  distinct := by
    rw [Distinct]
    exact ⟨hnames, distinctAll_iff.2 fun field h => (hproper field h).distinct⟩
  segments reference h name hname := by
    rw [references] at h
    obtain ⟨inner, hinner, rfl⟩ := List.mem_map.1 h
    obtain ⟨field, hfield, href⟩ := mem_referencesAll.1 hinner
    rcases List.mem_cons.1 hname with rfl | hname
    · exact hsource
    · exact (hproper field hfield).segments inner href name hname

theorem proper_ofScalar (head : FieldHead) (inList : Bool) (typeName : String) (kind : ScalarKind)
    (values : List String) : Proper (ofScalar head inList typeName kind values) := by
  rw [ofScalar]
  split <;> exact proper_value _ _ _

section Keep

variable {settings : SynthSettings}

theorem head_of_keep {typeName : String} {decl : FieldDecl} {seen : Seen} {kept : KeptField}
    (h : ((keep settings typeName decl).run seen).1 = some kept) :
    Arena.isExcluded settings decl.name decl.hidden = false ∧ kept.head = decl.head := by
  obtain ⟨source, content, nonNull, isHidden, description, hooks⟩ := decl
  rw [keep] at h
  by_cases hexcluded : Arena.isExcluded settings source isHidden
  · rw [if_pos hexcluded] at h
    cases h
  · rw [if_neg hexcluded] at h
    exact ⟨Bool.eq_false_iff.2 hexcluded,
      head_of_keepShape settings typeName _ content seen kept h⟩

/-- What is kept of fields are visible ones, in order. -/
theorem heads_keepAll (typeName : String) (decls : List FieldDecl) (seen : Seen) :
    (((keepAll settings typeName decls).run seen).1.map head).Sublist
      ((visibleDecls settings decls).map FieldDecl.head) := by
  induction decls generalizing seen with
  | nil =>
    rw [keepAll]
    exact List.Sublist.slnil
  | cons decl rest ih =>
    rw [keepAll, run_bind, run_bind]
    change (((((keep settings typeName decl).run seen).1.toList ++ _).map head).Sublist _)
    rw [List.map_append, visibleDecls, List.filter_cons]
    cases hfirst : ((keep settings typeName decl).run seen).1 with
    | none =>
      refine (ih _).trans ?_
      split
      · exact List.sublist_cons_self _ _
      · exact List.Sublist.refl _
    | some kept =>
      obtain ⟨hvisible, hhead⟩ := head_of_keep hfirst
      rw [hvisible, Bool.not_false, if_pos rfl, Option.toList_some, List.map_singleton, hhead]
      exact (ih _).cons_cons _

/-- A visible field is kept, unless its shape keeps no field. -/
theorem kept_or_hollow (typeName : String) {decls : List FieldDecl} {decl : FieldDecl}
    (h : decl ∈ visibleDecls settings decls) (seen : Seen) :
    decl.head ∈ ((keepAll settings typeName decls).run seen).1.map head ∨
      ∃ seen, ((keepShape settings typeName decl.head decl.shape).run seen).1 = none := by
  induction decls generalizing seen with
  | nil => exact absurd h List.not_mem_nil
  | cons first rest ih =>
    rw [keepAll, run_bind, run_bind]
    change _ ∈ (((keep settings typeName first).run seen).1.toList ++ _).map head ∨ _
    rw [List.map_append, List.mem_append]
    obtain ⟨hmem, hvisible⟩ := List.mem_filter.1 h
    rcases List.mem_cons.1 hmem with rfl | hmem
    · cases hfirst : ((keep settings typeName decl).run seen).1 with
      | some kept =>
        rw [Option.toList_some, List.map_singleton, (head_of_keep hfirst).2]
        exact .inl (.inl (List.mem_singleton_self _))
      | none =>
        obtain ⟨source, content, nonNull, isHidden, description, hooks⟩ := decl
        rw [keep, if_neg (by simpa using hvisible)] at hfirst
        exact .inr ⟨seen, hfirst⟩
    · rcases ih (List.mem_filter.2 ⟨hmem, hvisible⟩) _ with hkept | hhollow
      · exact .inl (.inr hkept)
      · exact .inr hhollow

/-- What is kept of siblings has their visible output names at most. -/
theorem names_keepAll (typeName : String) (decls : List FieldDecl) (seen : Seen) :
    (((keepAll settings typeName decls).run seen).1.map name).Sublist
      (visibleNames settings decls) := by
  have hheads := (@heads_keepAll settings typeName decls seen).map
    fun head => Naming.sanitize head.source
  rw [List.map_map, List.map_map] at hheads
  exact hheads

/-- What is kept of siblings with different visible names has different names. -/
theorem nodup_names_keepAll {decls : List FieldDecl} (h : (visibleNames settings decls).Nodup)
    (typeName : String) (seen : Seen) :
    (((keepAll settings typeName decls).run seen).1.map name).Nodup :=
  h.sublist (names_keepAll typeName decls seen)

theorem proper_of_ofNested {head : FieldHead} {inList : Bool} {object : String}
    {fields : List KeptField} {kept : KeptField} (hsource : Path.IsSegment head.source)
    (hnames : (fields.map name).Nodup) (hproper : ∀ field ∈ fields, Proper field)
    (h : ofNested head inList object fields = some kept) : Proper kept := by
  cases fields with
  | nil => cases h
  | cons first rest =>
    cases h
    exact proper_shape inList object false hsource hnames hproper

theorem proper_of_ofEmbedded {head : FieldHead} {inList : Bool} {object : String}
    {fields : List KeptField} {kept : KeptField} {seen : Seen}
    (hsource : Path.IsSegment head.source) (hnames : (fields.map name).Nodup)
    (hproper : ∀ field ∈ fields, Proper field)
    (h : ((ofEmbedded head inList object fields).run seen).1 = some kept) : Proper kept := by
  cases fields with
  | nil => cases h
  | cons first rest =>
    cases h
    exact proper_shape inList object true hsource hnames hproper

theorem proper_of_known {head : FieldHead} {inList : Bool} {known : Option FieldType}
    {kept : KeptField}
    (h : (known.map fun type => KeptField.value head (.listIf inList type) []) = some kept) :
    Proper kept := by
  obtain ⟨type, -, rfl⟩ := Option.map_eq_some_iff.1 h
  exact proper_value _ _ _

mutual

/-- What is kept of well-named fields is proper. -/
theorem proper_keepAll (typeName : String) : (decls : List FieldDecl) →
    WellNamedAll settings decls → (seen : Seen) →
      ∀ kept ∈ ((keepAll settings typeName decls).run seen).1, Proper kept
  | [], _, seen => by
    rw [keepAll]
    exact fun kept h => absurd h List.not_mem_nil
  | decl :: rest, hnamed, seen => by
    rw [WellNamedAll] at hnamed
    rw [keepAll, run_bind, run_bind]
    intro kept h
    rcases List.mem_append.1 h with h | h
    · exact proper_keep typeName decl hnamed.1 seen kept (Option.mem_toList.1 h)
    · exact proper_keepAll typeName rest hnamed.2 _ kept h

theorem proper_keep (typeName : String) : (decl : FieldDecl) → WellNamed settings decl →
    (seen : Seen) → (kept : KeptField) →
      ((keep settings typeName decl).run seen).1 = some kept → Proper kept
  | ⟨source, content, nonNull, isHidden, description, hooks⟩, hnamed, seen, kept, h => by
    rw [keep] at h
    rw [WellNamed] at hnamed
    by_cases hexcluded : Arena.isExcluded settings source isHidden
    · rw [if_pos hexcluded] at h
      cases h
    · rw [if_neg hexcluded] at h
      obtain ⟨hsource, hcontent⟩ := hnamed (Bool.eq_false_iff.2 hexcluded)
      exact proper_keepShape typeName ⟨source, nonNull, description, hooks⟩ hsource content
        hcontent seen kept h

theorem proper_keepShape (typeName : String) (head : FieldHead)
    (hsource : Path.IsSegment head.source) : (content : FieldShape FieldDecl) →
    WellNamedShape settings content → (seen : Seen) → (kept : KeptField) →
      ((keepShape settings typeName head content).run seen).1 = some kept → Proper kept
  | .scalar kind values, _, seen, kept, h => by
    rw [keepShape] at h
    rw [← Option.some.inj h]
    exact proper_ofScalar head false typeName kind values
  | .list element, hnamed, seen, kept, h => by
    rw [keepShape] at h
    rw [WellNamedShape] at hnamed
    exact proper_keepElement typeName head hsource element hnamed seen kept h
  | .nested decls, hnamed, seen, kept, h => by
    rw [keepShape, run_bind] at h
    rw [WellNamedShape] at hnamed
    exact proper_of_ofNested hsource (nodup_names_keepAll hnamed.1 _ seen)
      (proper_keepAll _ decls hnamed.2 seen) h
  | .embedded model decls, hnamed, seen, kept, h => by
    rw [keepShape, run_bind] at h
    rw [WellNamedShape] at hnamed
    cases hmeet : ((meet model).run seen).1 with
    | some known =>
      rw [hmeet] at h
      exact proper_of_known h
    | none =>
      rw [hmeet] at h
      exact proper_of_ofEmbedded hsource (nodup_names_keepAll hnamed.1 _ _)
        (proper_keepAll _ decls hnamed.2 _) h
  | .reference target cardinality, _, seen, kept, h => by
    rw [keepShape] at h
    rw [← Option.some.inj h]
    exact proper_reference target cardinality hsource

theorem proper_keepElement (typeName : String) (head : FieldHead)
    (hsource : Path.IsSegment head.source) : (element : ElementShape FieldDecl) →
    WellNamedElement settings element → (seen : Seen) → (kept : KeptField) →
      ((keepElement settings typeName head element).run seen).1 = some kept → Proper kept
  | .scalar kind values, _, seen, kept, h => by
    rw [keepElement] at h
    rw [← Option.some.inj h]
    exact proper_ofScalar head true typeName kind values
  | .nested decls, hnamed, seen, kept, h => by
    rw [keepElement, run_bind] at h
    rw [WellNamedElement] at hnamed
    exact proper_of_ofNested hsource (nodup_names_keepAll hnamed.1 _ seen)
      (proper_keepAll _ decls hnamed.2 seen) h
  | .embedded model decls, hnamed, seen, kept, h => by
    rw [keepElement, run_bind] at h
    rw [WellNamedElement] at hnamed
    cases hmeet : ((meet model).run seen).1 with
    | some known =>
      rw [hmeet] at h
      exact proper_of_known h
    | none =>
      rw [hmeet] at h
      exact proper_of_ofEmbedded hsource (nodup_names_keepAll hnamed.1 _ _)
        (proper_keepAll _ decls hnamed.2 _) h

end

end Keep

end KeptField

end ModelGraph
