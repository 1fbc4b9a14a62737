import ModelGraph.Proofs.Graph.Retyped

/-!
# Reserved names

Names that start with two underscores are reserved, and a declared field with such a name is left
out. A field that is kept stands under its name rewritten, and rewriting puts an underscore for
each character that is neither a letter nor a digit. So a reserved name is left for the fields whose
stored names open with two such characters and not with two underscores, as `_-x` and `--x` do.

## Main definitions

- `Naming.opensWithGaps` — names that open with two characters that become underscores

## Main statements

- `Naming.reserved_sanitize_iff` — the names that are rewritten to reserved ones
- `Run.reserved_of_synthesize` — the fields of a graph that stand under reserved names
-/

namespace ModelGraph

namespace Naming

/-- What reserved names start with. -/
abbrev introspection : String := "__"

/-- Whether rewriting puts an underscore for a character. -/
def isGap (c : Char) : Bool :=
  !(c.isDigit || c.isAlpha)

/-- Whether a name opens with two characters that become underscores. -/
def opensWithGaps (name : String) : Bool :=
  match name.toList with
  | first :: second :: _ => isGap first && isGap second
  | _ => false

theorem replace_eq_underscore_iff (c : Char) :
    (if isNameChar c then c else '_') = '_' ↔ isGap c = true := by
  rw [isNameChar, isGap]
  by_cases hc : c = '_'
  · subst hc
    decide
  · have hbeq : (c == '_') = false := beq_false_of_ne hc
    rw [hbeq, Bool.false_or]
    cases c.isDigit || c.isAlpha <;> simp [hc]

theorem isGap_of_isDigit {c : Char} (h : c.isDigit = true) : isGap c = false := by
  simp [isGap, h]

/-- A character that rewriting leaves no digit was none. -/
theorem isDigit_replace (c : Char) : (if isNameChar c then c else '_').isDigit = c.isDigit := by
  split
  · rfl
  · next hchar =>
    cases hdigit : c.isDigit with
    | false => decide
    | true => exact absurd (by simp [isNameChar, hdigit]) hchar

/-- A name is rewritten to a reserved one if it opens with two characters that become
underscores. The underscore in front of a digit is followed by this digit. -/
theorem reserved_sanitize_iff (name : String) :
    introspection.toList <+: (sanitize name).toList ↔ opensWithGaps name = true := by
  have htwo : introspection.toList = ['_', '_'] := rfl
  rw [sanitize, opensWithGaps, htwo]
  rcases name.toList with - | ⟨first, - | ⟨second, rest⟩⟩
  · decide
  · rw [List.map_singleton, String.toList_ofList, isDigit_replace]
    split
    · next hdigit =>
      have hgap := mt (replace_eq_underscore_iff first).1 (by simp [isGap_of_isDigit hdigit])
      simp [List.cons_prefix_cons, Ne.symm hgap]
    · simp [List.cons_prefix_cons]
  · rw [List.map_cons, List.map_cons, String.toList_ofList, isDigit_replace]
    split
    · next hdigit =>
      have hgap := mt (replace_eq_underscore_iff first).1 (by simp [isGap_of_isDigit hdigit])
      simp [List.cons_prefix_cons, Ne.symm hgap, isGap_of_isDigit hdigit]
    · simp only [List.cons_prefix_cons, List.nil_prefix, and_true, Bool.and_eq_true,
        ← replace_eq_underscore_iff, eq_comm (a := '_')]

end Naming

namespace Run

variable {run : Run} {models : List ModelDecl} {graph : TypeGraph}

/-- Every field of a graph is the identity field of its type, under the name of these, or made for a
declared field that is not left out, under the name of this field rewritten. -/
theorem kept_of_mem_objects (h : run.synthesize models = .ok graph) {type : ObjectType}
    (htype : type ∈ graph.objects) {key : String} {field : OutputField}
    (hfield : type.fields.get? key = some field) :
    (field.identity = true → key = Identity.field) ∧
      (field.identity = false → key = Naming.sanitize field.source ∧
        ∃ model ∈ models, ∃ decl, FieldDecl.Among model.ownFields decl ∧
          decl.name = field.source ∧
          Arena.isExcluded run.settings decl.name decl.hidden = false) := by
  obtain ⟨-, arena, hresolve, -, -, rfl⟩ := synthesize_eq_ok_iff.1 h
  obtain ⟨-, rfl⟩ := Arena.resolve_eq_ok_iff.1 hresolve
  obtain ⟨holder, hholder⟩ := run.exists_holder_of_mem_objects models htype
  have hplace : (run.layOut models).settled.fieldAt? ⟨holder, key⟩ = some field :=
    Option.bind_eq_some_iff.2 ⟨type, hholder, hfield⟩
  have hname : field.name = key := ((furnished_settled hholder).2 key field hfield).name_eq
  obtain ⟨old, hold, heq⟩ := Option.map_eq_some_iff.1
    ((Arena.fieldAt?_settleAll _ _ ⟨holder, key⟩).symm.trans hplace)
  -- Resolving has changed the type only.
  have hdescribes : run.Describes models (run.layOut models) holder old :=
    run.describes_of_layOut models hold
  have hsame : field.name = old.name ∧ field.source = old.source ∧
      field.identity = old.identity := by
    rw [← heq]
    exact ⟨rfl, rfl, rfl⟩
  obtain ⟨hsamename, hsource, hidentity⟩ := hsame
  rw [← hname, hsamename, hsource, hidentity]
  cases hdescribes with
  | identity => exact ⟨fun _ => rfl, fun hfalse => by cases hfalse⟩
  | @declared model _ decl _ hmodel _ hdecl hyields =>
    rw [hyields.identity, hyields.name, hyields.source]
    refine ⟨fun htrue => ?_, fun _ => ⟨rfl, model, hmodel, decl, hdecl, rfl, hyields.visible⟩⟩
    cases htrue

/-- A field of a graph stands under a reserved name if its stored name opens with two characters
that become underscores, unless it is an identity field. No stored name is reserved itself: the
field is declared with it and is not left out. So there is no reserved name when no declared field
that is not left out has a name that opens like this. -/
theorem reserved_of_synthesize (hreserved : run.settings.reserved = Naming.introspection)
    (h : run.synthesize models = .ok graph) :
    (∀ type ∈ graph.objects, ∀ key field, type.fields.get? key = some field →
      (Naming.introspection.toList <+: key.toList ↔
        field.identity = false ∧ Naming.opensWithGaps field.source = true) ∧
      (field.identity = false → ∃ model ∈ models, ∃ decl,
        FieldDecl.Among model.ownFields decl ∧ decl.name = field.source ∧
          decl.hidden = false ∧ ¬ Naming.introspection.toList <+: decl.name.toList)) ∧
    ((∀ model ∈ models, ∀ decl, FieldDecl.Among model.ownFields decl →
        Arena.isExcluded run.settings decl.name decl.hidden = false →
          Naming.opensWithGaps decl.name = false) →
      ∀ type ∈ graph.objects, ∀ key field, type.fields.get? key = some field →
        ¬ Naming.introspection.toList <+: key.toList) := by
  have hiff : ∀ type ∈ graph.objects, ∀ key field, type.fields.get? key = some field →
      (Naming.introspection.toList <+: key.toList ↔
        field.identity = false ∧ Naming.opensWithGaps field.source = true) := by
    intro type htype key field hfield
    obtain ⟨hidentity, hdeclared⟩ := kept_of_mem_objects h htype hfield
    cases hcase : field.identity with
    | true =>
      have hnone : ¬ Naming.introspection.toList <+: Identity.field.toList := by decide
      rw [hidentity hcase]
      simp [hnone]
    | false =>
      rw [(hdeclared hcase).1, Naming.reserved_sanitize_iff]
      simp
  refine ⟨fun type htype key field hfield => ⟨hiff type htype key field hfield, fun hcase => ?_⟩,
    fun hopens type htype key field hfield hprefix => ?_⟩
  · obtain ⟨-, model, hmodel, decl, hdecl, hname, hvisible⟩ :=
      (kept_of_mem_objects h htype hfield).2 hcase
    obtain ⟨hshown, hnone⟩ := Bool.or_eq_false_iff.1 hvisible
    rw [hreserved] at hnone
    refine ⟨model, hmodel, decl, hdecl, hname, hshown, fun hstart => ?_⟩
    rw [List.isPrefixOf_iff_prefix.2 hstart] at hnone
    cases hnone
  · obtain ⟨hcase, hgaps⟩ := (hiff type htype key field hfield).1 hprefix
    obtain ⟨-, model, hmodel, decl, hdecl, hname, hvisible⟩ :=
      (kept_of_mem_objects h htype hfield).2 hcase
    have hclear : Naming.opensWithGaps field.source = false :=
      hname ▸ hopens model hmodel decl hdecl hvisible
    rw [hgaps] at hclear
    cases hclear

end Run

/-- A model with a reserved name and one that is rewritten to a reserved name. -/
def ModelDecl.vault : ModelDecl where
  key := "vaults"
  name := "Vault"
  fields := [.scalar "__v" .number, .scalar "title" .string, .scalar "_-secret" .string]

/-- A vault leaves out the reserved name, and has a reserved name for the other field. -/
theorem Run.reserved_vault :
    (((Run.mk {} ⟨0⟩ 0).synthesize [.vault]).toOption.bind fun graph =>
      (graph.model? "Vault").map fun root => root.fields.keys) =
        some ["id", "title", "__secret"] := by
  decide +kernel

/-- The field of a vault that stands under a reserved name is declared with a name that is none. -/
theorem Run.exists_declared_vault : ∃ graph, (Run.mk {} ⟨0⟩ 0).synthesize [.vault] = .ok graph ∧
    ∃ type ∈ graph.objects, ∃ field, type.fields.get? "__secret" = some field ∧
      Naming.opensWithGaps field.source = true ∧
        ∃ decl, FieldDecl.Among ModelDecl.vault.ownFields decl ∧ decl.name = field.source ∧
          ¬ Naming.introspection.toList <+: decl.name.toList := by
  let result := (Run.mk {} ⟨0⟩ 0).synthesize [.vault]
  obtain ⟨graph, hok⟩ : ∃ graph, result = .ok graph := exists_eq_ok (by decide +kernel)
  have hfield : result.toOption.any (fun graph => graph.objects.any fun type =>
      (type.fields.get? "__secret").isSome) = true := by
    decide +kernel
  rw [hok] at hfield
  obtain ⟨type, htype, hsome⟩ := List.any_eq_true.1 hfield
  obtain ⟨field, hget⟩ := Option.isSome_iff_exists.1 hsome
  obtain ⟨hiff, hdeclared⟩ := (reserved_of_synthesize rfl hok).1 type htype "__secret" field hget
  obtain ⟨hidentity, hgaps⟩ := hiff.1 (by decide)
  obtain ⟨model, hmodel, decl, hdecl, hname, -, hprefix⟩ := hdeclared hidentity
  obtain rfl := List.mem_singleton.1 hmodel
  exact ⟨graph, hok, type, htype, field, hget, hgaps, decl, hdecl, hname, hprefix⟩

end ModelGraph
