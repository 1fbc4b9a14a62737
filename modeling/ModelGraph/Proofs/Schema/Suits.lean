import ModelGraph.Proofs.Schema.Along

/-!
# Arguments that fields declare

A request that suits a schema gives a field no arguments but those that it declares. Requests are
judged before their directives are looked at, and executed without the selections that these leave
out, so what is executed has declared arguments too.

## Main definitions

- `Schema.Declares` — selections whose fields have the arguments that they are given

## Main statements

- `Schema.Executes.declares` — the fields below a root field have the arguments they are given
-/

namespace ModelGraph

namespace Schema

variable {schema : Schema} {owner? : Option SchemaType} {selections : List Selection}
  {way : List FieldStep} {arguments : List (String × ArgValue)}

/-- Every field at the end of a way has the arguments that it is given. -/
def Declares (schema : Schema) (owner? : Option SchemaType) (selections : List Selection) : Prop :=
  ∀ way arguments, schema.Leads owner? selections way arguments →
    ∀ step field, way.getLast? = some step → step.name ≠ Selection.typeName →
      step.field? = some field → ∀ argument ∈ arguments, (field.parameter? argument.1).isSome

/-! ### Requests that are admitted -/

variable {parent : SchemaType} {calls : List Call} {inner : List Selection}

theorem calls?_field_cons {alias? : Option String} {name : String}
    {given : List (String × ArgValue)} {directives : List Directive} {rest : List Selection}
    (h : schema.calls? parent (.field alias? name given directives inner :: rest) = some calls)
    (hname : name ≠ Selection.typeName) :
    ∃ others found conditions target below, schema.calls? parent rest = some others ∧
      parent.selectable? name = some found ∧ schema.type? found.1.innermost = some target ∧
      (inner = [] ∨ schema.calls? target inner = some below) ∧
        calls = conditions ++ ⟨found.2, given⟩ :: below ++ others := by
  rw [calls?] at h
  simp only [Option.bind_eq_bind, Option.bind_eq_some_iff, if_neg hname] at h
  obtain ⟨others, hothers, found, hfound, conditions, -, target, htarget, h⟩ := h
  by_cases hempty : inner = []
  · subst hempty
    split at h
    · cases h
    · cases h
      exact ⟨others, found, conditions, target, [], hothers, hfound, htarget, .inl rfl, rfl⟩
  · have hempty : inner.isEmpty = false := by simpa using hempty
    rw [hempty] at h
    split at h
    · obtain ⟨below, hbelow, h⟩ := Option.bind_eq_some_iff.1 h
      cases h
      exact ⟨others, found, conditions, target, below, hothers, hfound, htarget, .inr hbelow, rfl⟩
    · cases h

theorem calls?_inline_cons {condition : Option String} {directives : List Directive}
    {rest : List Selection}
    (h : schema.calls? parent (.inline condition directives inner :: rest) = some calls) :
    ∃ others conditions target below, schema.calls? parent rest = some others ∧
      schema.within? (some parent) condition = some target ∧
      schema.calls? target inner = some below ∧ calls = conditions ++ below ++ others := by
  rw [calls?] at h
  simp only [Option.bind_eq_bind, Option.bind_eq_some_iff] at h
  obtain ⟨others, hothers, conditions, -, h⟩ := h
  cases condition with
  | none =>
    obtain ⟨below, hbelow, h⟩ := Option.bind_eq_some_iff.1 h
    cases h
    exact ⟨others, conditions, parent, below, hothers, rfl, hbelow, rfl⟩
  | some name =>
    obtain ⟨target, htarget, h⟩ := Option.bind_eq_some_iff.1 h
    split at h
    · obtain ⟨below, hbelow, h⟩ := Option.bind_eq_some_iff.1 h
      cases h
      exact ⟨others, conditions, target, below, hothers, htarget, hbelow, rfl⟩
    · cases h

theorem exists_calls?_tail {first : Selection} {rest : List Selection}
    (h : schema.calls? parent (first :: rest) = some calls) :
    ∃ others, schema.calls? parent rest = some others ∧ others ⊆ calls := by
  cases first with
  | field alias? name given directives inner =>
    by_cases hname : name = Selection.typeName
    · rw [calls?] at h
      simp only [Option.bind_eq_bind, Option.bind_eq_some_iff, if_pos hname] at h
      obtain ⟨others, hothers, h⟩ := h
      cases h
      exact ⟨_, hothers, List.Subset.refl _⟩
    · obtain ⟨others, _, _, _, _, hothers, -, -, -, rfl⟩ := calls?_field_cons h hname
      exact ⟨others, hothers, List.subset_append_right _ _⟩
  | inline condition directives inner =>
    obtain ⟨others, _, _, _, hothers, -, -, rfl⟩ := calls?_inline_cons h
    exact ⟨others, hothers, List.subset_append_right _ _⟩
  | spread =>
    rw [calls?] at h
    cases h

/-- A selected field is one that its type has, and what it is given is a call. -/
theorem calls?_of_field {alias? : Option String} {name : String}
    {given : List (String × ArgValue)} {directives : List Directive}
    (h : schema.calls? parent selections = some calls)
    (hmem : .field alias? name given directives inner ∈ selections)
    (hname : name ≠ Selection.typeName) :
    ∃ found target, parent.selectable? name = some found ∧
      schema.type? found.1.innermost = some target ∧ ⟨found.2, given⟩ ∈ calls ∧
      (inner = [] ∨ ∃ below, schema.calls? target inner = some below ∧ below ⊆ calls) := by
  induction selections generalizing calls with
  | nil => cases hmem
  | cons first rest ih =>
    rcases List.mem_cons.1 hmem with rfl | hrest
    · obtain ⟨others, found, conditions, target, below, -, hfound, htarget, hinner, rfl⟩ :=
        calls?_field_cons h hname
      refine ⟨found, target, hfound, htarget, by simp, hinner.imp_right fun hbelow => ?_⟩
      exact ⟨below, hbelow, fun call hcall => by simp [hcall]⟩
    · obtain ⟨others, hothers, hsub⟩ := exists_calls?_tail h
      obtain ⟨found, target, hfound, htarget, hcall, hinner⟩ := ih hothers hrest
      refine ⟨found, target, hfound, htarget, hsub hcall, hinner.imp_right ?_⟩
      exact fun ⟨below, hbelow, hmore⟩ => ⟨below, hbelow, List.Subset.trans hmore hsub⟩

/-- The selections of an inline fragment fit the type that they are on. -/
theorem calls?_of_inline {condition : Option String} {directives : List Directive}
    (h : schema.calls? parent selections = some calls)
    (hmem : .inline condition directives inner ∈ selections) :
    ∃ target below, schema.within? (some parent) condition = some target ∧
      schema.calls? target inner = some below ∧ below ⊆ calls := by
  induction selections generalizing calls with
  | nil => cases hmem
  | cons first rest ih =>
    rcases List.mem_cons.1 hmem with rfl | hrest
    · obtain ⟨others, conditions, target, below, -, htarget, hbelow, rfl⟩ := calls?_inline_cons h
      exact ⟨target, below, htarget, hbelow, fun call hcall => by simp [hcall]⟩
    · obtain ⟨others, hothers, hsub⟩ := exists_calls?_tail h
      obtain ⟨target, below, htarget, hbelow, hmore⟩ := ih hothers hrest
      exact ⟨target, below, htarget, hbelow, List.Subset.trans hmore hsub⟩

theorem not_leads_nil : ¬ schema.Leads owner? [] way arguments := by
  intro h
  cases h with
  | field hmem | deeper hmem | inline hmem => cases hmem

/-- Where no type is known no step has a field. -/
theorem Leads.owner?_eq_none (h : schema.Leads owner? selections way arguments)
    (hnone : owner? = none) : ∀ step ∈ way, step.owner? = none := by
  induction h with
  | field => exact List.forall_mem_singleton.2 hnone
  | @deeper _ _ _ _ name _ _ _ _ _ _ ih =>
    have hbelow : schema.below? ⟨none, name⟩ = none := by
      rw [below?]
      split <;> rfl
    exact List.forall_mem_cons.2 ⟨hnone, ih (hnone ▸ hbelow)⟩
  | @inline _ _ _ condition _ _ _ _ _ ih =>
    refine ih ?_
    subst hnone
    cases condition <;> rfl

/-- Selections whose calls fit have declared arguments. -/
theorem declares_of_calls? {bindings : Variables} (h : schema.calls? parent selections = some calls)
    (hfits : ∀ call ∈ calls, call.fits schema bindings = true) :
    schema.Declares (some parent) selections := by
  intro way arguments hway
  generalize howner : some parent = owner? at hway
  induction hway generalizing parent calls with
  | @field owner? selections inner alias? name given directives hmem =>
    intro step field hlast hname hfield argument hargument
    obtain rfl : ⟨owner?, name⟩ = step := Option.some.inj hlast
    obtain ⟨found, -, hfound, -, hcall, -⟩ := calls?_of_field h hmem hname
    have hcalls := hfits _ hcall
    rw [Call.fits, Bool.and_eq_true, Bool.and_eq_true, List.all_eq_true] at hcalls
    have hone := hcalls.1.2 argument hargument
    have hparameters : found.2 = field.parameters := by
      subst howner
      rw [FieldStep.field?] at hfield
      split at hfield
      · next object hobject =>
        cases hobject
        rw [SchemaType.selectable?] at hfound
        rw [hfield] at hfound
        cases hfound
        rfl
      · cases hfield
    rw [Call.argumentFits, Call.parameter?, hparameters] at hone
    rw [SchemaField.parameter?]
    split at hone
    · cases hone
    · next hparameter =>
      rw [hparameter]
      rfl
  | @deeper owner? selections inner alias? name own given directives way hmem hway ih =>
    intro step field hlast hname hfield
    rw [List.getLast?_cons_of_ne_nil hway.ne_nil] at hlast
    by_cases htype : name = Selection.typeName
    · have hnone := hway.owner?_eq_none (by rw [below?, if_pos htype]) step
        (List.mem_of_getLast? hlast)
      rw [FieldStep.field?, hnone] at hfield
      cases hfield
    · obtain ⟨found, target, hfound, htarget, -, hinner⟩ := calls?_of_field h hmem htype
      rcases hinner with rfl | ⟨below, hbelow, hsub⟩
      · exact absurd hway not_leads_nil
      · refine ih hbelow (fun call hcall => hfits call (hsub hcall)) ?_ step field hlast hname
          hfield
        subst howner
        rw [below?, if_neg htype, Option.bind_some, hfound, Option.bind_some, htarget]
  | @inline owner? selections inner condition given directives way hmem hway ih =>
    obtain ⟨target, below, htarget, hbelow, hsub⟩ := calls?_of_inline h hmem
    exact ih hbelow (fun call hcall => hfits call (hsub hcall)) (howner ▸ htarget.symm)

/-! ### Selections that are executed -/

theorem mem_of_mem_prune {bindings : Variables} {selection : Selection}
    {selections : List Selection} (h : selection ∈ Selection.prune bindings selections) :
    ∃ whole ∈ selections,
      match whole with
      | .field alias? name given directives inner =>
        selection = .field alias? name given directives (Selection.prune bindings inner)
      | .inline condition directives inner =>
        selection = .inline condition directives (Selection.prune bindings inner)
      | .spread name directives => selection = .spread name directives := by
  induction selections with
  | nil =>
    rw [Selection.prune] at h
    cases h
  | cons first rest ih =>
    cases first <;>
    · rw [Selection.prune] at h
      split at h
      · rcases List.mem_cons.1 h with rfl | h
        · exact ⟨_, List.mem_cons_self .., rfl⟩
        · obtain ⟨whole, hmem, hwhole⟩ := ih h
          exact ⟨whole, List.mem_cons_of_mem _ hmem, hwhole⟩
      · obtain ⟨whole, hmem, hwhole⟩ := ih h
        exact ⟨whole, List.mem_cons_of_mem _ hmem, hwhole⟩

/-- What leads on in pruned selections does so in the whole ones. -/
theorem Leads.of_prune {bindings : Variables}
    (h : schema.Leads owner? (Selection.prune bindings selections) way arguments) :
    schema.Leads owner? selections way arguments := by
  generalize hpruned : Selection.prune bindings selections = pruned at h
  induction h generalizing selections with
  | field hmem =>
    obtain ⟨whole, hwhole, heq⟩ := mem_of_mem_prune (hpruned ▸ hmem)
    cases whole with
    | field =>
      cases heq
      exact .field hwhole
    | inline | spread => cases heq
  | deeper hmem _ ih =>
    obtain ⟨whole, hwhole, heq⟩ := mem_of_mem_prune (hpruned ▸ hmem)
    cases whole with
    | field =>
      cases heq
      exact .deeper hwhole (ih rfl)
    | inline | spread => cases heq
  | inline hmem _ ih =>
    obtain ⟨whole, hwhole, heq⟩ := mem_of_mem_prune (hpruned ▸ hmem)
    cases whole with
    | inline =>
      cases heq
      exact .inline hwhole (ih rfl)
    | field | spread => cases heq

/-- A way from a field that is read goes on from the step to that field. -/
theorem leads_of_reads {type : SchemaObject} (htype : schema.type? type.name = some (.object type))
    (hinterface : type.interface = none) {read : ReadField} : (selections : List Selection) →
      read ∈ type.reads selections →
      schema.Leads (schema.type? read.field.type.innermost) read.selections way arguments →
      schema.Leads (some (.object type)) selections
        (⟨some (.object type), read.field.name⟩ :: way) arguments
  | [], hread, _ => by
    rw [SchemaObject.reads] at hread
    cases hread
  | .field alias? name given directives inner :: rest, hread, h => by
    rw [SchemaObject.reads, List.mem_append, Option.mem_toList, Option.map_eq_some_iff] at hread
    rcases hread with ⟨field, hfield, rfl⟩ | hread
    · split at hfield
      · cases hfield
      · next hname =>
        have hsame := SchemaObject.name_of_field? hfield
        refine .deeper (by rw [hsame]; exact List.mem_cons_self ..) ?_
        rw [below?, if_neg (by rwa [hsame]), hsame, Option.bind_some, SchemaType.selectable?]
        dsimp only
        rw [hfield]
        exact h
    · exact (leads_of_reads htype hinterface rest hread h).mono (List.subset_cons_self _ _)
  | .inline condition directives inner :: rest, hread, h => by
    rw [SchemaObject.reads, List.mem_append] at hread
    rcases hread with hread | hread
    · split at hread
      · next happlies =>
        refine .inline (List.mem_cons_self ..) ?_
        have hwithin : schema.within? (some (.object type)) condition = some (.object type) := by
          cases condition with
          | none => rfl
          | some name =>
            have hname : name = type.name := by simpa [Executor.applies, hinterface] using happlies
            rw [hname]
            exact htype
        rw [hwithin]
        exact leads_of_reads htype hinterface inner hread h
      · cases hread
    · exact (leads_of_reads htype hinterface rest hread h).mono (List.subset_cons_self _ _)
  | .spread name directives :: rest, hread, h => by
    rw [SchemaObject.reads] at hread
    exact (leads_of_reads htype hinterface rest hread h).mono (List.subset_cons_self _ _)

variable {ω : Type} {registry : HookRegistry ω} {graph : TypeGraph} {all : List SchemaType}
  {text : String} {name : Option String} {bindings : Variables} {document : Document}
  {operation : Operation} {root : SchemaObject} {read : ReadField}

/-- The root type is found under its name, and implements nothing. -/
theorem Exports.root_eq (h : schema.Exports graph registry all)
    (hnames : (all.map SchemaType.name).Nodup) (hroot : schema.root? = some root) :
    schema.type? root.name = some (.object root) ∧ root.interface = none := by
  obtain ⟨models, named, -, -, -, hall⟩ := registered_eq_ok h.registered_eq
  have hfound := h.type?_of_mem hnames (hall ▸ List.mem_append_right _ (List.mem_singleton_self _))
  rw [root?, object?] at hroot
  change schema.type? query = _ at hfound
  rw [hfound] at hroot
  cases hroot
  exact ⟨hfound, rfl⟩

/-- The operation that is executed fits the root type. No fragment of the document is left to be
spread, and no variable is defined twice. -/
theorem Executes.exists_calls (h : schema.Executes text name bindings document operation root) :
    ∃ calls, schema.calls? (.object root) (document.writtenOut operation) = some calls ∧
      (∀ call ∈ calls, call.fits schema bindings = true) ∧
      (∀ name ∈ Selection.spreads (document.writtenOut operation),
        document.fragments.get? name = none) ∧
        (operation.variableDefs.map VariableDef.name).Nodup := by
  have hadmits := h.admits
  rw [Schema.admits, Bool.and_eq_true, Bool.and_eq_true, List.all_eq_true] at hadmits
  have hfits := hadmits.1.1 operation (Document.mem_of_executed? h.executed_eq)
  simp only [operationFits, Bool.and_eq_true] at hfits
  obtain ⟨⟨⟨⟨-, hspreads⟩, -⟩, -⟩, hcalls⟩ := hfits
  split at hcalls
  · cases hcalls
  · next calls hsome =>
    obtain ⟨found, hfound, hsome⟩ := Option.bind_eq_some_iff.1 hsome
    have hroot : found = .object root := by
      have hroot := h.root_eq
      rw [root?, object?, hfound] at hroot
      split at hroot
      · next type hobject =>
        cases hroot
        exact Option.some.inj hobject
      · cases hroot
    subst hroot
    simp only [Bool.and_eq_true, variablesFit, List.all_eq_true, decide_eq_true_eq] at hcalls
    refine ⟨calls, hsome, hcalls.1, fun name hname => ?_, hcalls.2.1.1.1.1⟩
    have hunknown := List.all_eq_true.1 hspreads name hname
    rw [Bool.not_eq_true', ← Bool.not_eq_true, OrderedMap.contains_iff] at hunknown
    exact OrderedMap.get?_eq_none_iff.2 hunknown

/-- The fields below a root field that is executed have the arguments that they are given. -/
theorem Executes.declares (h : schema.Executes text name bindings document operation root)
    (hexports : schema.Exports graph registry all) (hnames : (all.map SchemaType.name).Nodup)
    (hread : read ∈ root.reads (document.selected bindings operation)) :
    schema.Declares (schema.type? read.field.type.innermost) read.selections := by
  obtain ⟨htype, hinterface⟩ := hexports.root_eq hnames h.root_eq
  obtain ⟨calls, hcalls, hfits, -⟩ := h.exists_calls
  have hdeclares := declares_of_calls? hcalls hfits
  intro way arguments hway step field hlast
  have hwhole := (leads_of_reads htype hinterface _ hread hway).of_prune
  refine hdeclares _ arguments hwhole step field ?_
  rw [List.getLast?_cons_of_ne_nil hway.ne_nil]
  exact hlast

end Schema

end ModelGraph
