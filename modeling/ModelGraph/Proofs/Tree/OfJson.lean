import Mathlib.Data.List.Nodup
import ModelGraph.Proofs.OrderedMap
import ModelGraph.Tree.Record

/-!
# JSON values read by content

A JSON value stands for a tree whose scalars have no tags and whose keys are quoted, so reading it
by content is plain: a string is text, a truth value is a boolean, an array lists its items, and an
object is a record whose parts are looked up by name. The lemmas below say so once for each reader;
what follows about decoders of JSON never opens a tree.

## Main definitions

- `Record.membersOf` — the members of an object as the parts of a record

## Main statements

- `Tree.record?_object` — an object is read as the record of its members
- `Record.fits_membersOf` — an object with different names gives no field twice
- `Record.required_membersOf`, `Record.defaulted_membersOf` — fields are looked up by name
-/

namespace ModelGraph

/-! ## Lists and results -/

theorem eraseDups_eq_self {α : Type} [BEq α] [LawfulBEq α] {xs : List α} (h : xs.Nodup) :
    xs.eraseDups = xs := by
  induction xs with
  | nil => rfl
  | cons x rest ih =>
    obtain ⟨hx, hrest⟩ := List.nodup_cons.1 h
    have hkeep : rest.filter (fun y => !y == x) = rest := by
      refine List.filter_eq_self.2 fun y hy => ?_
      have hne : y ≠ x := fun heq => hx (heq ▸ hy)
      simp [hne]
    rw [List.eraseDups_cons, hkeep, ih hrest]

/-- A result whose value is known is that value with the bound that comes along. -/
theorem exists_eq_some_of_map_val {α : Type} {p : α → Prop} {result : Option (Subtype p)} {a : α}
    (h : result.map Subtype.val = some a) : ∃ ha, result = some ⟨a, ha⟩ := by
  obtain ⟨⟨_, ha⟩, hresult, rfl⟩ := Option.map_eq_some_iff.1 h
  exact ⟨ha, hresult⟩

/-- What is written item by item is read back when each item is. -/
theorem mapM_map_eq_some {α β : Type} {write : α → β} {read : β → Option α} {xs : List α}
    (h : ∀ x ∈ xs, read (write x) = some x) : (xs.map write).mapM read = some xs := by
  induction xs with
  | nil => rfl
  | cons x rest ih =>
    obtain ⟨hfirst, hrest⟩ := List.forall_mem_cons.1 h
    rw [List.map_cons, List.mapM_cons, hfirst, ih hrest]
    rfl

/-! ## Simple values -/

namespace Tree

theorem ofJsonItems_eq_map (items : List Json) : ofJsonItems items = items.map ofJson := by
  induction items with
  | nil => rfl
  | cons item rest ih => rw [ofJsonItems, ih, List.map_cons]

@[simp] theorem text?_string (value : String) : (ofJson (.string value)).text? .typed = some value :=
  rfl

@[simp] theorem optionalText?_string (value : String) :
    (ofJson (.string value)).optionalText? .typed = some (some value) :=
  rfl

@[simp] theorem bool?_bool (value : Bool) : (ofJson (.bool value)).bool? .typed = some value := by
  cases value <;> decide +kernel

@[simp] theorem key?_string (value : String) :
    Record.key? .typed (ofJson (.string value)) = some (.name value) :=
  rfl

theorem items?_array (items : List Json) :
    ∃ h, (ofJson (.array items)).items? .typed = some ⟨items.map ofJson, h⟩ := by
  rw [ofJson, ofJsonItems_eq_map]
  exact ⟨_, rfl⟩

@[simp] theorem texts?_ofTexts (texts : List String) :
    (ofJson (.ofTexts texts)).texts? .typed = some texts := by
  have hread : ((texts.map Json.string).map ofJson).mapM (text? .typed) = some texts := by
    rw [List.map_map]
    exact mapM_map_eq_some fun text _ => text?_string text
  obtain ⟨_, hitems⟩ := items?_array (texts.map .string)
  rw [texts?, Json.ofTexts, hitems]
  exact hread

end Tree

/-! ## Objects -/

namespace Record

variable {α : Type} {names : List String} {field : String} {members : List (String × Json)}
  {read : Tree → Option α}

/-- The members of an object as the parts of a record. -/
def membersOf (members : List (String × Json)) : List (PartKey × Tree) :=
  members.map fun member => (.name member.1, .ofJson member.2)

theorem membersOf_cons (member : String × Json) (rest : List (String × Json)) :
    membersOf (member :: rest) = (.name member.1, .ofJson member.2) :: membersOf rest :=
  rfl

theorem membersOf_append (members more : List (String × Json)) :
    membersOf (members ++ more) = membersOf members ++ membersOf more :=
  List.map_append

theorem members?_ofJsonMembers (members : List (String × Json)) :
    members? .typed (Tree.ofJsonMembers members) = some (membersOf members) := by
  induction members with
  | nil => rfl
  | cons member rest ih =>
    rw [Tree.ofJsonMembers, members?, ih]
    rfl

theorem fieldName?_name (names : List String) (name : String) :
    fieldName? names (.name name) = if name ∈ names then some name else none := by
  simp [fieldName?]

/-- An object with different names gives no field twice. -/
theorem fits_membersOf (names : List String) (h : (Assoc.keys members).Nodup) :
    (Record.named (membersOf members)).fits names = true := by
  have hgiven : (membersOf members).filterMap (fun member => fieldName? names member.1) =
      (Assoc.keys members).filter (· ∈ names) := by
    induction members with
    | nil => rfl
    | cons member rest ih =>
      have hrest := ih (List.nodup_cons.1 h).2
      by_cases hmem : member.1 ∈ names <;>
        simp_all [membersOf, Assoc.keys, fieldName?_name]
  rw [fits, hgiven, eraseDups_eq_self (h.filter _)]
  exact decide_eq_true rfl

theorem find?_cons_val (key : PartKey) (value : Tree) (rest : List (PartKey × Tree)) :
    (find? names field ((key, value) :: rest)).map Subtype.val =
      if fieldName? names key = some field then some value
      else (find? names field rest).map Subtype.val := by
  rw [find?]
  split
  · rfl
  · rw [Option.map_map]
    rfl

/-- The part of an object for a field is the member of that name. -/
theorem part?_membersOf (members : List (String × Json)) (hfield : field ∈ names) :
    ((Record.named (membersOf members)).part? names field).map Subtype.val =
      (Assoc.get? field members).map Tree.ofJson := by
  rw [part?]
  induction members with
  | nil => rfl
  | cons member rest ih =>
    have hname : fieldName? names (.name member.1) = some field ↔ member.1 = field := by
      rw [fieldName?_name]
      split
      · exact Option.some_inj
      · next hmem =>
        exact iff_of_false (Option.some_ne_none field).symm fun heq => hmem (heq ▸ hfield)
    refine (find?_cons_val (.name member.1) (.ofJson member.2) (membersOf rest)).trans ?_
    simp only [hname, Assoc.get?]
    split
    · rfl
    · exact ih

theorem part?_membersOf_eq_some (names : List String) {value : Json}
    (h : Assoc.get? field members = some value) (hfield : field ∈ names) :
    ∃ hsize, (Record.named (membersOf members)).part? names field = some ⟨.ofJson value, hsize⟩ := by
  have hpart := part?_membersOf members hfield
  rw [h, Option.map_some] at hpart
  exact exists_eq_some_of_map_val hpart

/-- A field that has to be there is read from the member of that name. -/
theorem required_membersOf (hfield : field ∈ names) {value : Json}
    (h : Assoc.get? field members = some value) :
    (Record.named (membersOf members)).required names field read = read (.ofJson value) := by
  obtain ⟨_, hpart⟩ := part?_membersOf_eq_some names h hfield
  rw [required, hpart]
  rfl

/-- A field with a default is read from the member of that name, if there is one. -/
theorem defaulted_membersOf (hfield : field ∈ names) (default : α) :
    (Record.named (membersOf members)).defaulted names field default read =
      match Assoc.get? field members with
      | some value => read (.ofJson value)
      | none => some default := by
  have hpart := part?_membersOf members hfield
  rw [defaulted]
  cases hget : Assoc.get? field members with
  | none =>
    rw [hget, Option.map_none, Option.map_eq_none_iff] at hpart
    rw [hpart]
  | some value =>
    obtain ⟨_, hsome⟩ := part?_membersOf_eq_some names hget hfield
    rw [hsome]

end Record

namespace Tree

/-- An object is read as the record of its members. -/
theorem record?_object (members : List (String × Json)) :
    ∃ h, (ofJson (.object members)).record? .typed = some ⟨.named (Record.membersOf members), h⟩ := by
  have hval : ((ofJson (.object members)).record? .typed).map Subtype.val =
      some (.named (Record.membersOf members)) := by
    rw [ofJson, record?]
    split
    · next h =>
      rw [Record.members?_ofJsonMembers] at h
      cases h
    · next h =>
      rw [Record.members?_ofJsonMembers] at h
      cases h
      rfl
  exact exists_eq_some_of_map_val hval

/-! ## Values with content

Strings and booleans always have content; it is only numbers whose spelling decides. -/

@[simp] theorem isBuffered_string (value : String) : (ofJson (.string value)).isBuffered = true :=
  rfl

@[simp] theorem isBuffered_bool (value : Bool) : (ofJson (.bool value)).isBuffered = true := by
  cases value <;> decide +kernel

theorem areBuffered_iff {items : List Tree} :
    areBuffered items = true ↔ ∀ item ∈ items, item.isBuffered = true := by
  induction items with
  | nil => simp [areBuffered]
  | cons item rest ih => simp [areBuffered, ih]

@[simp] theorem isBuffered_array (items : List Json) :
    (ofJson (.array items)).isBuffered = true ↔ ∀ item ∈ items, (ofJson item).isBuffered = true := by
  rw [ofJson, isBuffered, ofJsonItems_eq_map]
  simp [areBuffered_iff, ScalarText.isLocalTag]

@[simp] theorem isBuffered_object (members : List (String × Json)) :
    (ofJson (.object members)).isBuffered = true ↔
      ∀ member ∈ members, (ofJson member.2).isBuffered = true := by
  rw [ofJson, isBuffered]
  simp only [ScalarText.isLocalTag, Bool.not_false, Bool.true_and]
  induction members with
  | nil => simp [ofJsonMembers, areBufferedEntries]
  | cons member rest ih =>
    obtain ⟨name, value⟩ := member
    have hkey : isBuffered (.scalar { text := name, plain := false }) = true := rfl
    simp [ofJsonMembers, areBufferedEntries, hkey, ih]

end Tree

end ModelGraph
