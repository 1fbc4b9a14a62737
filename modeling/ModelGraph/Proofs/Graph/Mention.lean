import ModelGraph.Proofs.Graph.Mirror
import ModelGraph.Proofs.Graph.Placed

/-!
# What kept fields mention

A kept field has the type of an embedded model that was met before, of an enum or an object of its
own, or is a slot. An embedded model that was met before is either finished, and then its type is
there or it kept no field, or it contains the field. So the kept fields of a model only mention
object types and enums that the model adds itself, and so do the types built of them.

## Main definitions

- `KeptField.UsesAll` — kept fields with types in a vocabulary
- `KeptField.RefersTo` — a field whose type is one of its own, or an object type that is met
- `KeptField.Keeps` — what keeping fields does to what is remembered of embedded models
- `Arena.Tidy` — types under their own names with fields in a vocabulary

## Main statements

- `KeptField.keeps_keepAll` — kept fields mention what they add or what was met before
- `KeptField.tidy_buildAll` — building kept fields keeps an arena tidy
-/

namespace ModelGraph

@[simp] theorem FieldType.innermost_asNonNull (type : FieldType) :
    type.asNonNull.innermost = type.innermost := by
  cases type <;> rfl

@[simp] theorem FieldType.innermost_listIf (inList : Bool) (type : FieldType) :
    (FieldType.listIf inList type).innermost = type.innermost := by
  cases inList <;> rfl

namespace KeptField

/-! ### Vocabularies of kept fields -/

mutual

/-- Whether the types of a field and below it use a vocabulary, and only references are slots. -/
def Uses (words : Vocabulary) : KeptField → Prop
  | .value _ type enums =>
    type.isUnresolved = false ∧ type.Uses words ∧ ∀ enum ∈ enums, words.enums enum.name
  | .reference _ _ _ => True
  | .shape _ _ object _ fields => words.objects object ∧ UsesAll words fields

/-- Whether the types of fields and below them use a vocabulary. -/
def UsesAll (words : Vocabulary) : List KeptField → Prop
  | [] => True
  | kept :: rest => Uses words kept ∧ UsesAll words rest

end

mutual

theorem Uses.mono {words larger : Vocabulary} : (kept : KeptField) → Uses words kept →
    words.Within larger → Uses larger kept
  | .value _ type enums, h, hwithin => by
    rw [Uses] at h ⊢
    exact ⟨h.1, h.2.1.mono hwithin, fun enum hmem => hwithin.enums _ (h.2.2 enum hmem)⟩
  | .reference _ _ _, _, _ => by
    rw [Uses]
    trivial
  | .shape _ _ object _ fields, h, hwithin => by
    rw [Uses] at h ⊢
    exact ⟨hwithin.objects object h.1, UsesAll.mono fields h.2 hwithin⟩

theorem UsesAll.mono {words larger : Vocabulary} : (kept : List KeptField) → UsesAll words kept →
    words.Within larger → UsesAll larger kept
  | [], _, _ => by
    rw [UsesAll]
    trivial
  | kept :: rest, h, hwithin => by
    rw [UsesAll] at h ⊢
    exact ⟨Uses.mono kept h.1 hwithin, UsesAll.mono rest h.2 hwithin⟩

end

theorem objectNamesAll_eq_flatMap (kept : List KeptField) :
    objectNamesAll kept = kept.flatMap objectNames := by
  induction kept with
  | nil => rfl
  | cons first rest ih => rw [objectNamesAll, ih, List.flatMap_cons]

theorem enumNamesAll_eq_flatMap (kept : List KeptField) :
    enumNamesAll kept = kept.flatMap enumNames := by
  induction kept with
  | nil => rfl
  | cons first rest ih => rw [enumNamesAll, ih, List.flatMap_cons]

/-! ### Keeping -/

/-- Whether fields add the type of an embedded model under a name. -/
def AddsEmbedded (kept : List KeptField) (name : String) : Prop :=
  ∀ owner path, ∃ found ∈ placedAll owner path kept, ∃ head inList fields,
    found.field = .shape head inList name true fields

/-- Whether the type of a field of values is a scalar, an enum of the field, or an object type that
is met. -/
def RefersTo (met : String → Prop) : KeptField → Prop
  | .value _ type enums =>
    match type.innermost with
    | .scalar _ => True
    | .enum name => name ∈ enums.map EnumType.name
    | .object name => met name
    | _ => False
  | .reference _ _ _ | .shape _ _ _ _ _ => True

theorem RefersTo.mono {met larger : String → Prop} {kept : KeptField} (h : kept.RefersTo met)
    (hlarger : ∀ name, met name → larger name) : kept.RefersTo larger := by
  cases kept with
  | value head type enums =>
    rw [RefersTo] at h ⊢
    cases hcore : type.innermost with
    | object name =>
      rw [hcore] at h
      exact hlarger name h
    | scalar _ | enum _ | connection _ | list _ | nonNull _ | unresolved _ =>
      rw [hcore] at h
      exact h
  | reference _ _ _ | shape _ _ _ _ _ => trivial

/-- The object types that kept fields of values may have: those of embedded models that they add, or
that were met before and did not turn out to keep no field. -/
def Met (before : Seen) (kept : List KeptField) (name : String) : Prop :=
  AddsEmbedded kept name ∨
    ∃ model ∈ before.embedded, Naming.embeddedType model = name ∧ name ∉ before.hollow

/-- What kept fields may mention: what they add, and the embedded types that were met before and did
not turn out to keep no field. -/
def wordsOf (before : Seen) (kept : List KeptField) : Vocabulary where
  objects name := name ∈ objectNamesAll kept ∨
    ∃ model ∈ before.embedded, Naming.embeddedType model = name ∧ name ∉ before.hollow
  enums name := name ∈ enumNamesAll kept

/-- What keeping fields does to what is remembered of embedded models: every model met by then has
its type among those added, or keeps no field. -/
structure Keeps (before : Seen) (kept : List KeptField) (after : Seen) : Prop where
  stay : ∀ model ∈ before.embedded, model ∈ after.embedded
  met : ∀ model ∈ after.embedded, model ∈ before.embedded ∨
    Naming.embeddedType model ∈ after.hollow ∨ AddsEmbedded kept (Naming.embeddedType model)
  hollow : ∀ name ∈ before.hollow, name ∈ after.hollow
  hollowed : ∀ name ∈ after.hollow, name ∈ before.hollow ∨
    ∃ model ∈ after.embedded, Naming.embeddedType model = name
  values : ∀ owner path, ∀ found ∈ placedAll owner path kept, found.field.RefersTo (Met before kept)

/-! ### What fields add -/

theorem AddsEmbedded.mono {kept more : List KeptField} {name : String} (h : AddsEmbedded kept name)
    (hmore : ∀ owner path, placedAll owner path kept ⊆ placedAll owner path more) :
    AddsEmbedded more name := by
  intro owner path
  obtain ⟨found, hfound, hshape⟩ := h owner path
  exact ⟨found, hmore owner path hfound, hshape⟩

theorem AddsEmbedded.below {fields : List KeptField} {name : String} (h : AddsEmbedded fields name)
    (head : FieldHead) (inList : Bool) (object : String) (embedded : Bool) :
    AddsEmbedded [.shape head inList object embedded fields] name := by
  intro owner path
  obtain ⟨found, hfound, hshape⟩ := h owner (Path.child path head.source)
  rw [placedAll_singleton, placed]
  exact ⟨found, List.mem_cons_of_mem _ hfound, hshape⟩

theorem addsEmbedded_shape (head : FieldHead) (inList : Bool) (object : String)
    (fields : List KeptField) : AddsEmbedded [.shape head inList object true fields] object := by
  intro owner path
  rw [placedAll_singleton, placed]
  exact ⟨_, List.mem_cons_self .., head, inList, fields, rfl⟩

theorem AddsEmbedded.mem_objectNames {kept : List KeptField} {name : String}
    (h : AddsEmbedded kept name) : name ∈ objectNamesAll kept := by
  obtain ⟨found, hfound, head, inList, fields, hshape⟩ := h "" ""
  exact mem_objectNamesAll_of_placed "" "" kept found hfound head inList name true fields hshape

/-! ### What fields mention -/

/-- A field of values mentions an enum of its own or an object type that is met. -/
theorem RefersTo.uses {words : Vocabulary} {head : FieldHead} {type : FieldType}
    {enums : List EnumType} (h : (KeptField.value head type enums).RefersTo words.objects)
    (henums : ∀ enum ∈ enums, words.enums enum.name) :
    Uses words (.value head type enums) := by
  rw [RefersTo] at h
  rw [Uses, FieldType.isUnresolved, FieldType.Uses]
  cases hcore : type.innermost with
  | scalar kind => exact ⟨rfl, trivial, henums⟩
  | enum name =>
    rw [hcore] at h
    obtain ⟨enum, hmem, rfl⟩ := List.mem_map.1 h
    exact ⟨rfl, henums enum hmem, henums⟩
  | object name =>
    rw [hcore] at h
    exact ⟨rfl, h, henums⟩
  | connection _ | list _ | nonNull _ | unresolved _ =>
    rw [hcore] at h
    exact h.elim

mutual

theorem uses_of_refersTo {words : Vocabulary} (owner path : String) : (kept : KeptField) →
    (∀ found ∈ placed owner path kept, found.field.RefersTo words.objects) →
    (∀ name ∈ objectNames kept, words.objects name) →
    (∀ name ∈ enumNames kept, words.enums name) → Uses words kept
  | .value head type enums, hvalues, _, henums => by
    rw [enumNames] at henums
    exact RefersTo.uses (hvalues _ (mem_placed_self owner path _)) fun enum hmem =>
      henums _ (List.mem_map_of_mem hmem)
  | .reference _ _ _, _, _, _ => by
    rw [Uses]
    trivial
  | .shape head inList object embedded fields, hvalues, hobjects, henums => by
    rw [placed] at hvalues
    rw [objectNames] at hobjects
    rw [enumNames] at henums
    rw [Uses]
    refine ⟨hobjects object (List.mem_append_right _ (List.mem_singleton_self _)), ?_⟩
    exact usesAll_of_refersTo owner (Path.child path head.source) fields
      (fun found h => hvalues found (List.mem_cons_of_mem _ h))
      (fun name h => hobjects name (List.mem_append_left _ h)) henums

/-- Fields use a vocabulary that has what they add and the object types that their values have. -/
theorem usesAll_of_refersTo {words : Vocabulary} (owner path : String) : (kept : List KeptField) →
    (∀ found ∈ placedAll owner path kept, found.field.RefersTo words.objects) →
    (∀ name ∈ objectNamesAll kept, words.objects name) →
    (∀ name ∈ enumNamesAll kept, words.enums name) → UsesAll words kept
  | [], _, _, _ => by
    rw [UsesAll]
    trivial
  | kept :: rest, hvalues, hobjects, henums => by
    rw [placedAll] at hvalues
    rw [objectNamesAll] at hobjects
    rw [enumNamesAll] at henums
    rw [UsesAll]
    exact ⟨uses_of_refersTo owner path kept (fun found h => hvalues found (List.mem_append_left _ h))
        (fun name h => hobjects name (List.mem_append_left _ h))
        (fun name h => henums name (List.mem_append_left _ h)),
      usesAll_of_refersTo owner path rest (fun found h => hvalues found (List.mem_append_right _ h))
        (fun name h => hobjects name (List.mem_append_right _ h))
        (fun name h => henums name (List.mem_append_right _ h))⟩

end

theorem Keeps.uses {before after : Seen} {kept : List KeptField} (h : Keeps before kept after) :
    UsesAll (wordsOf before kept) kept := by
  refine usesAll_of_refersTo "" "" kept (fun found hfound => ?_) (fun _ h => .inl h) fun _ h => h
  exact (h.values "" "" found hfound).mono fun name hname =>
    hname.imp_left AddsEmbedded.mem_objectNames

/-! ### Keeping step by step -/

theorem Keeps.nil (seen : Seen) : Keeps seen [] seen where
  stay _ h := h
  met _ h := .inl h
  hollow _ h := h
  hollowed _ h := .inl h
  values _ _ _ h := absurd h List.not_mem_nil

theorem Keeps.append {before middle after : Seen} {kept others : List KeptField}
    (h : Keeps before kept middle) (h' : Keeps middle others after) :
    Keeps before (kept ++ others) after := by
  have hleft : ∀ {name}, AddsEmbedded kept name → AddsEmbedded (kept ++ others) name := fun hname =>
    hname.mono fun owner path => by
      rw [placedAll_append]
      exact List.subset_append_left ..
  have hright : ∀ {name}, AddsEmbedded others name → AddsEmbedded (kept ++ others) name :=
    fun hname => hname.mono fun owner path => by
      rw [placedAll_append]
      exact List.subset_append_right ..
  refine ⟨fun model hmodel => h'.stay model (h.stay model hmodel), fun model hmodel => ?_,
    fun name hname => h'.hollow name (h.hollow name hname), fun name hname => ?_,
    fun owner path found hfound => ?_⟩
  · rcases h'.met model hmodel with hmiddle | hhollow | hname
    -- What was met in between is an object by then, or it is hollow and stays so.
    · rcases h.met model hmiddle with hbefore | hhollow | hname
      · exact .inl hbefore
      · exact .inr (.inl (h'.hollow _ hhollow))
      · exact .inr (.inr (hleft hname))
    · exact .inr (.inl hhollow)
    · exact .inr (.inr (hright hname))
  · rcases h'.hollowed name hname with hmiddle | hnew
    · rcases h.hollowed name hmiddle with hbefore | ⟨model, hmodel, heq⟩
      · exact .inl hbefore
      · exact .inr ⟨model, h'.stay model hmodel, heq⟩
    · exact .inr hnew
  · rw [placedAll_append] at hfound
    rcases List.mem_append.1 hfound with hfound | hfound
    · exact (h.values owner path found hfound).mono fun name hname => hname.imp_left hleft
    · refine (h'.values owner path found hfound).mono fun name hname => ?_
      rcases hname with hname | ⟨model, hmodel, rfl, hnot⟩
      · exact .inl (hright hname)
      · rcases h.met model hmodel with hbefore | hhollow | hname
        · exact .inr ⟨model, hbefore, rfl, fun hmem => hnot (h.hollow _ hmem)⟩
        · exact absurd hhollow hnot
        · exact .inl (hleft hname)

theorem keeps_singleton {seen : Seen} {kept : KeptField}
    (h : ∀ owner path, placed owner path kept = [⟨owner, path, kept⟩])
    (hrefers : kept.RefersTo (Met seen [kept])) : Keeps seen [kept] seen where
  stay _ h := h
  met _ h := .inl h
  hollow _ h := h
  hollowed _ h := .inl h
  values owner path found hfound := by
    rw [placedAll_singleton, h, List.mem_singleton] at hfound
    rw [hfound]
    exact hrefers

theorem keeps_value {seen : Seen} {head : FieldHead} {type : FieldType} {enums : List EnumType}
    (h : (KeptField.value head type enums).RefersTo (Met seen [.value head type enums])) :
    Keeps seen [.value head type enums] seen :=
  keeps_singleton (fun owner path => by rw [placed]) h

theorem keeps_ofScalar (seen : Seen) (head : FieldHead) (inList : Bool) (typeName : String)
    (kind : ScalarKind) (values : List String) :
    Keeps seen [ofScalar head inList typeName kind values] seen := by
  rw [ofScalar]
  split
  · refine keeps_value ?_
    rw [RefersTo, FieldType.innermost_listIf]
    trivial
  · refine keeps_value ?_
    rw [RefersTo, FieldType.innermost_listIf]
    exact List.mem_singleton_self _

theorem keeps_reference (seen : Seen) (head : FieldHead) (target : String)
    (cardinality : Cardinality) : Keeps seen [.reference head target cardinality] seen :=
  keeps_singleton (fun owner path => by rw [placed]) trivial

/-- A shape is kept with its fields. -/
theorem Keeps.shape {before after : Seen} {fields : List KeptField} (h : Keeps before fields after)
    (head : FieldHead) (inList : Bool) (object : String) (embedded : Bool) :
    Keeps before [.shape head inList object embedded fields] after where
  stay := h.stay
  met model hmodel := (h.met model hmodel).imp_right (Or.imp_right fun hname =>
    hname.below head inList object embedded)
  hollow := h.hollow
  hollowed := h.hollowed
  values owner path found hfound := by
    rw [placedAll_singleton, placed] at hfound
    rcases List.mem_cons.1 hfound with rfl | hfound
    · trivial
    · exact (h.values owner (Path.child path head.source) found hfound).mono fun name hname =>
        hname.imp_left fun hname => hname.below head inList object embedded

theorem Keeps.ofNested {before after : Seen} {fields : List KeptField} (h : Keeps before fields after)
    (head : FieldHead) (inList : Bool) (object : String) :
    Keeps before (ofNested head inList object fields).toList after := by
  cases fields with
  | nil => exact h
  | cons first rest => exact h.shape head inList object false

/-- An embedded model is announced before its fields are kept, so that they may mention its type. -/
theorem Keeps.ofEmbedded {before after : Seen} {model : String} {fields : List KeptField}
    (h : Keeps { before with embedded := model :: before.embedded } fields after)
    (head : FieldHead) (inList : Bool) :
    let kept := (KeptField.ofEmbedded head inList (Naming.embeddedType model) fields).run after
    Keeps before kept.1.toList kept.2 := by
  have hmet : model ∈ after.embedded := h.stay model (List.mem_cons_self ..)
  have hstay : ∀ other ∈ before.embedded, other ∈ after.embedded :=
    fun other hother => h.stay other (List.mem_cons_of_mem _ hother)
  cases fields with
  | nil =>
    -- An embedded model without fields is hollow, and nothing mentions it.
    refine ⟨hstay, fun other hother => ?_, fun name hname => ?_, fun name hname => ?_,
      fun _ _ _ h => absurd h List.not_mem_nil⟩
    · rcases h.met other hother with hbefore | hhollow | hname
      · rcases List.mem_cons.1 hbefore with rfl | hbefore
        · exact .inr (.inl (List.mem_cons_self ..))
        · exact .inl hbefore
      · exact .inr (.inl (List.mem_cons_of_mem _ hhollow))
      · exact absurd hname.mem_objectNames List.not_mem_nil
    · exact List.mem_cons_of_mem _ (h.hollow name hname)
    · rcases List.mem_cons.1 hname with rfl | hname
      · exact .inr ⟨model, hmet, rfl⟩
      · exact h.hollowed name hname
  | cons first rest =>
    have hshape := h.shape head inList (Naming.embeddedType model) true
    have hown := addsEmbedded_shape head inList (Naming.embeddedType model) (first :: rest)
    refine ⟨hstay, fun other hother => ?_, hshape.hollow, hshape.hollowed,
      fun owner path found hfound => (hshape.values owner path found hfound).mono fun name hname => ?_⟩
    · rcases hshape.met other hother with hbefore | hrest
      · rcases List.mem_cons.1 hbefore with rfl | hbefore
        · exact .inr (.inr hown)
        · exact .inl hbefore
      · exact .inr hrest
    · rcases hname with hname | ⟨other, hother, rfl, hnot⟩
      · exact .inl hname
      · rcases List.mem_cons.1 hother with rfl | hother
        · exact .inl hown
        · exact .inr ⟨other, hother, rfl, hnot⟩

section Keep

variable {settings : SynthSettings}

/-- An embedded shape mentions the type met before, or keeps its fields here. -/
theorem keeps_embedded {head : FieldHead} {inList : Bool} {model : String} {decls : List FieldDecl}
    (h : ∀ seen : Seen, Keeps seen
      ((keepAll settings (Naming.embeddedType model) decls).run seen).1
      ((keepAll settings (Naming.embeddedType model) decls).run seen).2) (seen : Seen) :
    let kept := (do
        match ← meet model with
        | some known => pure (known.map fun type => value head (.listIf inList type) [])
        | none =>
          let kept ← keepAll settings (Naming.embeddedType model) decls
          ofEmbedded head inList (Naming.embeddedType model) kept : StateM Seen _).run seen
    Keeps seen kept.1.toList kept.2 := by
  have hmeet := run_meet model seen
  dsimp only
  by_cases hmet : model ∈ seen.embedded
  · rw [if_pos hmet] at hmeet
    rw [run_bind, hmeet]
    by_cases hhollow : Naming.embeddedType model ∈ seen.hollow
    · rw [if_pos hhollow]
      exact .nil seen
    · rw [if_neg hhollow]
      refine keeps_value ?_
      rw [RefersTo, FieldType.innermost_listIf]
      exact .inr ⟨model, hmet, rfl, hhollow⟩
  · rw [if_neg hmet] at hmeet
    rw [run_bind, hmeet]
    exact (h { seen with embedded := model :: seen.embedded }).ofEmbedded head inList

mutual

/-- Kept fields mention what they add, or an embedded type that was met before. -/
theorem keeps_keepAll (typeName : String) : (decls : List FieldDecl) → (seen : Seen) →
    Keeps seen ((keepAll settings typeName decls).run seen).1
      ((keepAll settings typeName decls).run seen).2
  | [], seen => by
    rw [keepAll]
    exact .nil seen
  | decl :: rest, seen => by
    rw [keepAll, run_bind, run_bind]
    exact (keeps_keep typeName decl seen).append (keeps_keepAll typeName rest _)

theorem keeps_keep (typeName : String) : (decl : FieldDecl) → (seen : Seen) →
    Keeps seen ((keep settings typeName decl).run seen).1.toList
      ((keep settings typeName decl).run seen).2
  | ⟨source, content, nonNull, isHidden, description, hooks⟩, seen => by
    rw [keep]
    split
    · exact .nil seen
    · exact keeps_keepShape typeName ⟨source, nonNull, description, hooks⟩ content seen

theorem keeps_keepShape (typeName : String) (head : FieldHead) :
    (content : FieldShape FieldDecl) → (seen : Seen) →
    Keeps seen ((keepShape settings typeName head content).run seen).1.toList
      ((keepShape settings typeName head content).run seen).2
  | .scalar kind values, seen => by
    rw [keepShape]
    exact keeps_ofScalar seen head false typeName kind values
  | .list element, seen => by
    rw [keepShape]
    exact keeps_keepElement typeName head element seen
  | .nested decls, seen => by
    rw [keepShape, run_bind]
    exact (keeps_keepAll (Naming.nestedType typeName head.source) decls seen).ofNested head false _
  | .embedded model decls, seen => by
    rw [keepShape]
    exact keeps_embedded (keeps_keepAll (Naming.embeddedType model) decls) seen
  | .reference target cardinality, seen => by
    rw [keepShape]
    exact keeps_reference seen head target cardinality

theorem keeps_keepElement (typeName : String) (head : FieldHead) :
    (element : ElementShape FieldDecl) → (seen : Seen) →
    Keeps seen ((keepElement settings typeName head element).run seen).1.toList
      ((keepElement settings typeName head element).run seen).2
  | .scalar kind values, seen => by
    rw [keepElement]
    exact keeps_ofScalar seen head true typeName kind values
  | .nested decls, seen => by
    rw [keepElement, run_bind]
    exact (keeps_keepAll (Naming.nestedType typeName head.source) decls seen).ofNested head true _
  | .embedded model decls, seen => by
    rw [keepElement]
    exact keeps_embedded (keeps_keepAll (Naming.embeddedType model) decls) seen

end

end Keep

end KeptField

/-! ### Building -/

/-- Whether a field has a type and arguments in a vocabulary. -/
structure OutputField.Uses (words : Vocabulary) (mirrors : Mirrors) (field : OutputField) : Prop where
  type : field.type.Uses words
  args : ∀ arg ∈ field.args, arg.type.Uses words mirrors

theorem OutputField.Uses.mono {words : Vocabulary} {mirrors larger : Mirrors} {field : OutputField}
    (h : field.Uses words mirrors) (hkeys : ∀ name ∈ mirrors.keys, name ∈ larger.keys) :
    field.Uses words larger :=
  ⟨h.type, fun arg harg => (h.args arg harg).mono hkeys⟩

theorem OutputField.Uses.within {words larger : Vocabulary} {mirrors : Mirrors} {field : OutputField}
    (h : field.Uses words mirrors) (hwithin : words.Within larger) : field.Uses larger mirrors :=
  ⟨h.type.mono hwithin, fun arg harg =>
    (h.args arg harg).imp_right (Or.imp_left (hwithin.enums _))⟩

namespace Arena

/-- An arena whose finished types stand under their own names, with fields in a vocabulary. -/
structure Tidy (words : Vocabulary) (arena : Arena) : Prop where
  objects : ∀ name type, arena.objects.get? name = some type →
    type.name = name ∧ ∀ field ∈ type.fields.values, field.Uses words arena.inputs
  enums : ∀ name type, arena.enums.get? name = some type → type.name = name ∧ words.enums name
  inputs : arena.inputs.Closed words
  mirrored : ∀ name ∈ arena.inputs.keys, ∃ object ∈ arena.objects.keys, name = Naming.inputType object

section Tidy

variable {words : Vocabulary} {arena : Arena}

theorem tidy_empty (words : Vocabulary) : Tidy words {} where
  objects _ _ h := by cases h
  enums _ _ h := by cases h
  inputs := Mirrors.closed_empty words
  mirrored _ h := by cases h

theorem Tidy.speaks (h : arena.Tidy words) : Speaks words arena.objects :=
  fun name type hget field hfield => ((h.objects name type hget).2 field hfield).type

/-- Deriving the arguments of a field keeps an arena tidy. -/
theorem Tidy.argumentsOf (h : arena.Tidy words) {type : FieldType} (htype : type.Uses words) :
    let result := (Arena.argumentsOf type).run arena
    result.2.Tidy words ∧ (∀ arg ∈ result.1, arg.type.Uses words result.2.inputs) ∧
      ∀ name ∈ arena.inputs.keys, name ∈ result.2.inputs.keys := by
  rw [run_argumentsOf]
  split
  · exact ⟨h, fun _ harg => absurd harg List.not_mem_nil, fun _ hname => hname⟩
  · obtain ⟨hextends, hargs⟩ := Arguments.derive_spec h.speaks htype arena.inputs
    refine ⟨⟨fun name type hget => ?_, h.enums, hextends.closed h.inputs, fun name hname => ?_⟩,
      hargs, hextends.stay⟩
    · obtain ⟨hname, hfields⟩ := h.objects name type hget
      exact ⟨hname, fun field hfield => (hfields field hfield).mono hextends.stay⟩
    · rcases hextends.fresh name hname with hbefore | hnew
      · exact h.mirrored name hbefore
      · exact hnew

theorem Tidy.addEnums (h : arena.Tidy words) {enums : List EnumType}
    (henums : ∀ enum ∈ enums, words.enums enum.name) :
    Tidy words { arena with
      enums := arena.enums.insertMany (enums.map fun type => (type.name, type)) } := by
  refine ⟨h.objects, fun name type hget => ?_, h.inputs, h.mirrored⟩
  rcases OrderedMap.mem_of_get?_insertMany hget with hmem | hold
  · obtain ⟨_, henum, ⟨⟩⟩ := List.mem_map.1 hmem
    exact ⟨rfl, henums type henum⟩
  · exact h.enums name type hold

theorem Tidy.addShape (h : arena.Tidy words) {object : String} {embedded : Bool}
    {fields : OrderedMap String OutputField}
    (hfields : ∀ field ∈ fields.values, field.Uses words arena.inputs) :
    Tidy words { arena with
      objects := arena.objects.insert object { name := object, fields, embedded } } := by
  refine ⟨fun name type hget => ?_, h.enums, h.inputs, fun name hname => ?_⟩
  · rw [OrderedMap.get?_insert] at hget
    split at hget
    · next heq =>
      cases hget
      exact ⟨heq, hfields⟩
    · exact h.objects name type hget
  · obtain ⟨other, hother, rfl⟩ := h.mirrored name hname
    exact ⟨other, OrderedMap.mem_keys_insert.2 (.inr hother), rfl⟩

end Tidy

end Arena

namespace KeptField

section Tidy

variable {words : Vocabulary} (owner : String)

theorem tidy_output {arena : Arena} (h : arena.Tidy words) (head : FieldHead) {type : FieldType}
    (htype : type.Uses words) :
    let result := (output head type).run arena
    result.2.Tidy words ∧ result.1.Uses words result.2.inputs ∧
      ∀ name ∈ arena.inputs.keys, name ∈ result.2.inputs.keys := by
  have hwrapped : (if head.nonNull && !type.isUnresolved then type.asNonNull else type).Uses
      words := by
    split
    · rwa [FieldType.Uses, FieldType.innermost_asNonNull]
    · exact htype
  obtain ⟨htidy, hargs, hstay⟩ := h.argumentsOf hwrapped
  exact ⟨htidy, ⟨hwrapped, hargs⟩, hstay⟩

mutual

/-- Building a type in a vocabulary keeps an arena tidy. -/
theorem tidy_buildType (path : String) : (kept : KeptField) → Uses words kept → (arena : Arena) →
    arena.Tidy words →
      let built := (buildType owner path kept).run arena
      built.2.Tidy words ∧ built.1.Uses words ∧
        ∀ name ∈ arena.inputs.keys, name ∈ built.2.inputs.keys
  | .value head type enums, hwords, arena, h => by
    rw [Uses] at hwords
    rw [buildType]
    exact ⟨h.addEnums hwords.2.2, hwords.2.1, fun _ hname => hname⟩
  | .reference head target cardinality, _, arena, h => by
    rw [buildType]
    exact ⟨⟨h.objects, h.enums, h.inputs, h.mirrored⟩, trivial, fun _ hname => hname⟩
  | .shape head inList object embedded fields, hwords, arena, h => by
    rw [Uses] at hwords
    obtain ⟨htidy, hfields, hstay⟩ := tidy_buildAll (Path.child path head.source) fields hwords.2 ∅
      arena h fun _ hfield => absurd hfield List.not_mem_nil
    rw [buildType]
    refine ⟨htidy.addShape hfields, ?_, hstay⟩
    change (FieldType.listIf inList (.object object)).Uses words
    rw [FieldType.Uses, FieldType.innermost_listIf]
    exact hwords.1

/-- Building kept fields in a vocabulary keeps an arena tidy. -/
theorem tidy_buildAll (path : String) : (kept : List KeptField) → UsesAll words kept →
    (done : OrderedMap String OutputField) → (arena : Arena) → arena.Tidy words →
    (∀ field ∈ done.values, field.Uses words arena.inputs) →
      let built := (buildAll owner path kept done).run arena
      built.2.Tidy words ∧ (∀ field ∈ built.1.values, field.Uses words built.2.inputs) ∧
        ∀ name ∈ arena.inputs.keys, name ∈ built.2.inputs.keys
  | [], _, done, arena, h, hdone => by
    rw [buildAll]
    exact ⟨h, hdone, fun _ hname => hname⟩
  | kept :: rest, hwords, done, arena, h, hdone => by
    rw [UsesAll] at hwords
    obtain ⟨htyped, htype, hstay⟩ := tidy_buildType path kept hwords.1 arena h
    let typed := (buildType owner path kept).run arena
    obtain ⟨hplaced, hfield, hstay'⟩ := tidy_output htyped kept.head htype
    let placed := (output kept.head typed.1).run typed.2
    obtain ⟨hbuilt, hfields, hstay''⟩ := tidy_buildAll path rest hwords.2
      (done.insert placed.1.name placed.1) placed.2 hplaced fun field hmem => by
        rcases OrderedMap.mem_values_insert hmem with rfl | hmem
        · exact hfield
        · exact (hdone field hmem).mono fun name hname => hstay' name (hstay name hname)
    rw [buildAll]
    exact ⟨hbuilt, hfields, fun name hname => hstay'' name (hstay' name (hstay name hname))⟩

end

end Tidy

end KeptField

end ModelGraph
