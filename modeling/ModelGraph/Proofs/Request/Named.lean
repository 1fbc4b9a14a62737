import Mathlib.Data.List.TakeWhile
import ModelGraph.Proofs.OrderedMap
import ModelGraph.Proofs.Success
import ModelGraph.Proofs.Text.Path
import ModelGraph.Request.Grammar
import ModelGraph.Request.Inline

/-!
# Names in requests

The grammar takes a name to be a letter or an underscore with letters, digits and underscores behind
it. Every field that a parsed document selects therefore has a name that reads back from a path.

## Main definitions

- `Selection.Named` — selections whose fields have such names, at every level

## Main statements

- `Document.named_of_parse` — the selections of a parsed document are named
-/

namespace ModelGraph

open Text

/-- Every field has a name that reads back from a path, at any level. -/
def Selection.Named : List Selection → Prop
  | [] => True
  | .field _ name _ _ inner :: rest => Path.IsSegment name ∧ Named inner ∧ Named rest
  | .inline _ _ inner :: rest => Named inner ∧ Named rest
  | .spread _ _ :: rest => Named rest

open Selection

theorem Selection.Named.append {selections others : List Selection} (h : Named selections)
    (hothers : Named others) : Named (selections ++ others) := by
  induction selections with
  | nil => exact hothers
  | cons selection rest ih =>
    cases selection <;> simp_all [Named]

theorem Selection.Named.of_field {selections inner : List Selection} {alias? : Option String}
    {name : String} {arguments : List (String × ArgValue)} {directives : List Directive}
    (h : Named selections) (hmem : .field alias? name arguments directives inner ∈ selections) :
    Path.IsSegment name ∧ Named inner := by
  induction selections with
  | nil => cases hmem
  | cons first rest ih =>
    rcases List.mem_cons.1 hmem with rfl | hmem
    · rw [Named] at h
      exact ⟨h.1, h.2.1⟩
    · cases first <;> rw [Named] at h <;> simp_all

theorem Selection.Named.of_inline {selections inner : List Selection} {condition : Option String}
    {directives : List Directive} (h : Named selections)
    (hmem : .inline condition directives inner ∈ selections) : Named inner := by
  induction selections with
  | nil => cases hmem
  | cons first rest ih =>
    rcases List.mem_cons.1 hmem with rfl | hmem
    · rw [Named] at h
      exact h.1
    · cases first <;> rw [Named] at h <;> simp_all

namespace Grammar

/-- What is read without a fault has a property. -/
def Gives {α : Type} (P : α → Prop) (item : Checked α) : Prop :=
  ∀ value, item = .ok value → P value

variable {α β : Type}

theorem Gives.map {P : α → Prop} {Q : β → Prop} {item : Checked α} {f : α → β} (h : Gives P item)
    (hf : ∀ value, P value → Q (f value)) : Gives Q (item.map f) := by
  intro value hvalue
  cases item with
  | error e => cases hvalue
  | ok first =>
    cases hvalue
    exact hf first (h first rfl)

theorem isSegment_of_takeName {s : List Char} {taken : Taken String s}
    (h : takeName s = some taken) : Path.IsSegment taken.value := by
  rw [takeName] at h
  split at h
  · next hstart =>
    cases s with
    | nil => cases hstart
    | cons c rest =>
      have hpart : isNamePart c = true := by
        rw [isNamePart, Bool.or_eq_true]
        exact .inl hstart
      rw [Text.takeWhile, if_pos hpart] at h
      cases h
      refine ⟨fun hempty => ?_, fun hdot => ?_⟩
      · have := congrArg String.toList hempty
        simp [Taken.map] at this
      · have hmem : '.' ∈ c :: rest.takeWhile isNamePart := by
          simpa [Taken.map] using hdot
        rcases List.mem_cons.1 hmem with rfl | hmem
        · cases hpart
        · exact absurd (List.mem_takeWhile_imp hmem) (by decide)
  · cases h

theorem isSegment_of_name {s : List Char} {taken : Taken String s} (h : name s = some taken) :
    Path.IsSegment taken.value := by
  rw [name, token] at h
  obtain ⟨inner, hinner, rfl⟩ := Option.map_eq_some_iff.1 h
  have hsegment := isSegment_of_takeName hinner
  exact hsegment

/-- A field is named when its name is one and the fields below it are named. -/
theorem gives_field {alias? : Option String} {name : String} (hname : Path.IsSegment name)
    (args : Checked (List (String × ArgValue))) (dirs : Checked (List Directive))
    {inner : Checked (List Selection)} (h : Gives Named inner) :
    Gives (fun item => Named [item])
      (do return .field alias? name (← args) (← dirs) (← inner)) := by
  intro item hitem
  obtain ⟨args, -, hitem⟩ := bind_eq_ok_iff.1 hitem
  obtain ⟨dirs, -, hitem⟩ := bind_eq_ok_iff.1 hitem
  obtain ⟨inner, hinner, hitem⟩ := bind_eq_ok_iff.1 hitem
  cases hitem
  rw [Named, Named]
  exact ⟨hname, h inner hinner, trivial⟩

theorem gives_inlineOf (condition : Option String) (dirs : Checked (List Directive))
    {items : Checked (List Selection)} (h : Gives Named items) :
    Gives (fun item => Named [item]) (inlineOf condition dirs items) := by
  intro item hitem
  rw [inlineOf] at hitem
  obtain ⟨dirs, -, hitem⟩ := bind_eq_ok_iff.1 hitem
  obtain ⟨items, hitems, hitem⟩ := bind_eq_ok_iff.1 hitem
  cases hitem
  rw [Named, Named]
  exact ⟨h items hitems, trivial⟩

theorem gives_andThen {first : Checked Selection} {others : Checked (List Selection)}
    (h : Gives (fun item => Named [item]) first) (hothers : Gives Named others) :
    Gives Named (andThen first others) := by
  intro items hitems
  rw [andThen] at hitems
  obtain ⟨first, hfirst, hitems⟩ := bind_eq_ok_iff.1 hitems
  obtain ⟨others, hrest, hitems⟩ := bind_eq_ok_iff.1 hitems
  cases hitems
  exact (h first hfirst).append (hothers others hrest)

mutual

theorem gives_selectionSet (depth : Nat) (s : List Char)
    {taken : Taken (Checked (List Selection)) s} (h : selectionSet depth s = some taken) :
    Gives Named taken.value := by
  rw [selectionSet] at h
  obtain ⟨⟨_, rest, hrest⟩, -, h⟩ := Option.bind_eq_some_iff.1 h
  obtain ⟨items, hitems, h⟩ := Option.bind_eq_some_iff.1 h
  cases h
  have hnamed := gives_selections (depth - 1) rest hitems
  intro value hvalue
  change limit depth items.value = .ok value at hvalue
  rw [limit] at hvalue
  split at hvalue
  · cases hvalue
  · exact hnamed value hvalue
termination_by 4 * s.length
decreasing_by omega

theorem gives_selections (depth : Nat) (s : List Char) {taken : Taken (Checked (List Selection)) s}
    (h : selections depth s = some taken) : Gives Named taken.value := by
  rw [selections] at h
  obtain ⟨⟨item, rest, hrest⟩, hitem, h⟩ := Option.bind_eq_some_iff.1 h
  have hfirst := gives_selection depth s hitem
  dsimp only at h hfirst
  split at h
  · cases h
    exact hfirst.map fun _ hnamed => hnamed
  · obtain ⟨items, hitems, h⟩ := Option.bind_eq_some_iff.1 h
    cases h
    exact gives_andThen hfirst (gives_selections depth rest hitems)
termination_by 4 * s.length + 3
decreasing_by all_goals omega

theorem gives_selection (depth : Nat) (s : List Char) {taken : Taken (Checked Selection) s}
    (h : selection depth s = some taken) : Gives (fun item => Named [item]) taken.value := by
  rw [selection] at h
  split at h
  · next rest hrest _ =>
    obtain ⟨item, hitem, rfl⟩ := Option.map_eq_some_iff.1 h
    have hnamed := gives_fragment depth rest hitem
    exact hnamed
  · obtain ⟨⟨first, rest, hrest⟩, hname, h⟩ := Option.bind_eq_some_iff.1 h
    dsimp only at h
    split at h
    · cases h
      exact gives_fieldParts depth none (isSegment_of_name hname) rest
    · next rest' hrest' _ =>
      obtain ⟨⟨second, rest'', hrest''⟩, hname, h⟩ := Option.bind_eq_some_iff.1 h
      cases h
      exact gives_fieldParts depth (some first) (isSegment_of_name hname) rest''
termination_by 4 * s.length + 2
decreasing_by all_goals omega

theorem gives_fieldParts (depth : Nat) (alias? : Option String) {name : String}
    (hname : Path.IsSegment name) (s : List Char) :
    Gives (fun item => Named [item]) (fieldParts depth alias? name s).1 := by
  have hargs := (optional [] arguments s).2.le
  have hdirs := (optional [] directives (optional [] arguments s).2.rest).2.le
  rw [fieldParts]
  dsimp only
  split
  · next items hitems => exact gives_field hname _ _ (gives_selectionSet depth _ hitems)
  · have hnone : Gives Named (.ok []) := by
      intro value hvalue
      cases hvalue
      rw [Named]
      trivial
    exact gives_field hname (optional [] arguments s).1 _ hnone
termination_by 4 * s.length + 1
decreasing_by exact Nat.lt_succ_of_le (Nat.mul_le_mul_left 4 (Nat.le_trans hdirs hargs))

theorem gives_fragment (depth : Nat) (s : List Char) {taken : Taken (Checked Selection) s}
    (h : fragment depth s = some taken) : Gives (fun item => Named [item]) taken.value := by
  rw [fragment] at h
  split at h
  · next condition rest hrest _ =>
    have hlt := Nat.lt_of_le_of_lt (optional [] directives rest).2.le hrest
    obtain ⟨items, hitems, h⟩ := Option.bind_eq_some_iff.1 h
    cases h
    exact gives_inlineOf (some condition) _ (gives_selectionSet depth _ hitems)
  · have hdirs := (optional [] directives s).2.le
    dsimp only at h
    split at h
    · next items hitems =>
      cases h
      exact gives_inlineOf none _ (gives_selectionSet depth _ hitems)
    · obtain ⟨⟨name, rest, hrest⟩, -, h⟩ := Option.bind_eq_some_iff.1 h
      cases h
      intro item hitem
      obtain ⟨dirs, -, rfl⟩ := map_eq_ok_iff.1 hitem
      rw [Named, Named]
      trivial
termination_by 4 * s.length + 1
decreasing_by
  · exact Nat.lt_succ_of_lt (Nat.mul_lt_mul_of_pos_left hlt (by decide))
  · exact Nat.lt_succ_of_le (Nat.mul_le_mul_left 4 hdirs)

end

/-- The selections that a definition holds. -/
def Definition.selections : Definition → List Selection
  | .operation _ defined => defined.selections
  | .fragment _ defined => defined.selections

theorem gives_operation {s : List Char} {taken : Taken (Checked Definition) s}
    (h : operation s = some taken) : Gives (fun item => Named item.selections) taken.value := by
  rw [operation] at h
  split at h
  · obtain ⟨items, hitems, h⟩ := Option.bind_eq_some_iff.1 h
    cases h
    have hnamed := gives_selectionSet maxDepth _ hitems
    intro item hitem
    obtain ⟨name, -, hitem⟩ := bind_eq_ok_iff.1 hitem
    obtain ⟨vars, -, hitem⟩ := bind_eq_ok_iff.1 hitem
    obtain ⟨dirs, -, hitem⟩ := bind_eq_ok_iff.1 hitem
    obtain ⟨inner, hinner, hitem⟩ := bind_eq_ok_iff.1 hitem
    cases hitem
    exact hnamed inner hinner
  · obtain ⟨items, hitems, h⟩ := Option.bind_eq_some_iff.1 h
    cases h
    exact (gives_selectionSet maxDepth s hitems).map fun _ hnamed => hnamed

theorem gives_fragmentDef {s : List Char} {taken : Taken (Checked Definition) s}
    (h : fragmentDef s = some taken) : Gives (fun item => Named item.selections) taken.value := by
  rw [fragmentDef] at h
  obtain ⟨_, -, h⟩ := Option.bind_eq_some_iff.1 h
  obtain ⟨_, -, h⟩ := Option.bind_eq_some_iff.1 h
  obtain ⟨_, -, h⟩ := Option.bind_eq_some_iff.1 h
  obtain ⟨items, hitems, h⟩ := Option.bind_eq_some_iff.1 h
  cases h
  have hnamed := gives_selectionSet maxDepth _ hitems
  intro item hitem
  obtain ⟨dirs, -, hitem⟩ := bind_eq_ok_iff.1 hitem
  obtain ⟨inner, hinner, hitem⟩ := bind_eq_ok_iff.1 hitem
  cases hitem
  exact hnamed inner hinner

theorem gives_definition (s : List Char) {taken : Taken (Checked Definition) s}
    (h : definition s = some taken) : Gives (fun item => Named item.selections) taken.value := by
  rw [definition] at h
  cases hoperation : operation s with
  | some found =>
    rw [hoperation] at h
    cases h
    exact gives_operation hoperation
  | none =>
    rw [hoperation] at h
    exact gives_fragmentDef h

theorem gives_many {P : α → Prop} {read : (s : List Char) → Option (Taken (Checked α) s)}
    (hread : ∀ s taken, read s = some taken → Gives P taken.value) (s : List Char)
    {taken : Taken (Checked (List α)) s} (h : many read s = some taken) :
    Gives (fun items => ∀ item ∈ items, P item) taken.value := by
  rw [many] at h
  obtain ⟨⟨first, rest, hrest⟩, hfirst, h⟩ := Option.bind_eq_some_iff.1 h
  have hgives := hread s _ hfirst
  dsimp only at h hgives
  split at h
  · next others hothers =>
    cases h
    have hmany := gives_many hread rest hothers
    intro items hitems
    obtain ⟨item, hitem, hitems⟩ := bind_eq_ok_iff.1 hitems
    obtain ⟨more, hmore, hitems⟩ := bind_eq_ok_iff.1 hitems
    cases hitems
    exact List.forall_mem_cons.2 ⟨hgives item hitem, hmany more hmore⟩
  · cases h
    exact hgives.map fun item hitem => List.forall_mem_singleton.2 hitem
termination_by s.length
decreasing_by exact hrest

theorem named_of_definitions {text : String} {items : List Definition}
    (h : definitions text = .ok items) : ∀ item ∈ items, Named item.selections := by
  rw [definitions] at h
  split at h
  · cases h
  · next found rest hrest hmany =>
    split at h
    · exact gives_many gives_definition _ hmany items h
    · cases h

end Grammar

namespace Document

/-- Every operation and every fragment selects fields with names. -/
structure NamedParts (operations : List Operation) (fragments : OrderedMap String Fragment) :
    Prop where
  operations : ∀ operation ∈ operations, Selection.Named operation.selections
  fragments : ∀ fragment ∈ fragments.values, Selection.Named fragment.selections

/-- Every operation and every fragment of a document selects fields with names. -/
def Named (document : Document) : Prop :=
  NamedParts document.operations.toList document.fragments

theorem NamedParts.add {parts others : Option Operations × OrderedMap String Fragment}
    {item : Grammar.Definition} (h : NamedParts (parts.1.elim [] Operations.toList) parts.2)
    (hitem : Selection.Named item.selections) (hadd : Document.add parts item = .ok others) :
    NamedParts (others.1.elim [] Operations.toList) others.2 := by
  obtain ⟨operations?, fragments⟩ := parts
  cases item with
  | operation name? operation =>
    have hone : ∀ other ∈ [operation], Selection.Named other.selections :=
      List.forall_mem_singleton.2 hitem
    cases name? with
    | none =>
      cases operations? with
      | none =>
        cases hadd
        exact ⟨hone, h.fragments⟩
      | some operations => cases operations <;> cases hadd
    | some name =>
      cases operations? with
      | none =>
        cases hadd
        exact ⟨hone, h.fragments⟩
      | some operations =>
        cases operations with
        | anonymous first => cases hadd
        | named operations =>
          change (if operations.contains name then Except.error (ParseError.duplicateOperation name)
            else .ok (some (.named (operations.insert name operation)), fragments)) = .ok others
              at hadd
          split at hadd
          · cases hadd
          · cases hadd
            refine ⟨fun other hother => ?_, h.fragments⟩
            rcases OrderedMap.mem_values_insert hother with rfl | hother
            · exact hitem
            · exact h.operations other hother
  | fragment name fragment =>
    rw [Document.add] at hadd
    split at hadd
    · cases hadd
    · cases hadd
      refine ⟨h.operations, fun other hother => ?_⟩
      rcases OrderedMap.mem_values_insert hother with rfl | hother
      · exact hitem
      · exact h.fragments other hother

theorem NamedParts.foldlM {items : List Grammar.Definition}
    {parts others : Option Operations × OrderedMap String Fragment}
    (h : NamedParts (parts.1.elim [] Operations.toList) parts.2)
    (hitems : ∀ item ∈ items, Selection.Named item.selections)
    (hadd : items.foldlM Document.add parts = .ok others) :
    NamedParts (others.1.elim [] Operations.toList) others.2 := by
  induction items generalizing parts with
  | nil =>
    cases hadd
    exact h
  | cons item rest ih =>
    obtain ⟨hitem, hrest⟩ := List.forall_mem_cons.1 hitems
    rw [List.foldlM_cons] at hadd
    obtain ⟨next, hnext, hadd⟩ := bind_eq_ok_iff.1 hadd
    exact ih (h.add hitem hnext) hrest hadd

/-- The fields that a parsed document selects have names that read back from a path. -/
theorem named_of_parse {text : String} {document : Document}
    (h : Document.parse text = .ok document) : document.Named := by
  obtain ⟨items, hitems, h⟩ := bind_eq_ok_iff.1 h
  obtain ⟨⟨operations?, fragments⟩, hparts, h⟩ := bind_eq_ok_iff.1 h
  have hstart : NamedParts ((none : Option Operations).elim [] Operations.toList) ∅ :=
    ⟨fun _ hmem => absurd hmem List.not_mem_nil, fun _ hmem => absurd hmem List.not_mem_nil⟩
  have hnamed := hstart.foldlM (Grammar.named_of_definitions hitems) hparts
  cases operations? with
  | none => cases h
  | some operations =>
    cases h
    exact hnamed

end Document

namespace Selection

variable {fragments : OrderedMap String Fragment}

/-- Writing out fragments brings in no names but those of the fragments. -/
theorem Named.inlineSpreads (fragments : OrderedMap String Fragment) (selections : List Selection)
    (hfragments : ∀ fragment ∈ fragments.values, Named fragment.selections)
    (h : Named selections) : Named (inlineSpreads fragments selections) := by
  match selections with
  | [] => rwa [Selection.inlineSpreads]
  | .field alias? name arguments directives inner :: rest =>
    rw [Named] at h
    rw [Selection.inlineSpreads, Named]
    exact ⟨h.1, inlineSpreads fragments inner hfragments h.2.1,
      inlineSpreads fragments rest hfragments h.2.2⟩
  | .inline condition directives inner :: rest =>
    rw [Named] at h
    rw [Selection.inlineSpreads, Named]
    exact ⟨inlineSpreads fragments inner hfragments h.1,
      inlineSpreads fragments rest hfragments h.2⟩
  | .spread name directives :: rest =>
    rw [Named] at h
    have hrest := inlineSpreads fragments rest hfragments h
    rw [Selection.inlineSpreads]
    split
    · rwa [Named]
    · next fragment hget =>
      have hleft : ∀ other ∈ (fragments.erase name).values, Named other.selections := by
        intro other hother
        obtain ⟨key, hkey⟩ := OrderedMap.mem_values_iff.1 hother
        rw [OrderedMap.get?_erase] at hkey
        split at hkey
        · cases hkey
        · exact hfragments other (OrderedMap.mem_values_iff.2 ⟨key, hkey⟩)
      have hown := hfragments fragment (OrderedMap.mem_values_iff.2 ⟨name, hget⟩)
      rw [Named]
      exact ⟨inlineSpreads (fragments.erase name) fragment.selections hleft hown, hrest⟩
-- A fragment that is entered leaves the fragments that may still be.
termination_by Fragment.countAll fragments + Selection.countAll selections
decreasing_by
  all_goals simp only [Selection.countAll, Selection.count]
  all_goals first
    | omega
    | have hleft := Fragment.countAll_erase_le ‹fragments.get? name = some _›
      omega

/-- Dropping selections leaves the others as they are. -/
theorem Named.prune (bindings : Variables) (selections : List Selection) (h : Named selections) :
    Named (prune bindings selections) := by
  match selections with
  | [] => rwa [Selection.prune]
  | .field alias? name arguments directives inner :: rest =>
    rw [Named] at h
    rw [Selection.prune]
    split
    · rw [Named]
      exact ⟨h.1, prune bindings inner h.2.1, prune bindings rest h.2.2⟩
    · exact prune bindings rest h.2.2
  | .inline condition directives inner :: rest =>
    rw [Named] at h
    rw [Selection.prune]
    split
    · rw [Named]
      exact ⟨prune bindings inner h.1, prune bindings rest h.2⟩
    · exact prune bindings rest h.2
  | .spread name directives :: rest =>
    rw [Named] at h
    rw [Selection.prune]
    split
    · rw [Named]
      exact prune bindings rest h
    · exact prune bindings rest h
termination_by sizeOf selections
decreasing_by
  all_goals simp +arith

end Selection

end ModelGraph
