import ModelGraph.Model.Encode
import ModelGraph.Proofs.Model.Kinds
import ModelGraph.Proofs.Tree.OfJson

/-!
# Declared fields through JSON and back

What is written of a field is read back part by part: a text or a list that is left out where there
is none or where it is empty, the flags, the hooks, and the shape, whose kind stands among the
field's own members. A field is read back by induction on it, with one case for each shape.

## Main definitions

- `FieldDecl.commonMembers` — the members that every field has, as a field is written

## Main statements

- `HookNames.ofTree?_toJson` — hook names are read back
- `FieldDecl.filter_membersOf` — the shape's members are told apart from those that every field has
- `FieldDecl.isBuffered_toJson` — every value written has content
- `FieldDecl.ofTree?_toJson`, `FieldDecl.allOf?_allToJson` — fields are read back
-/

namespace ModelGraph

/-! ## Lists on one side of a test -/

theorem filter_of_forall {α : Type} {p : α → Bool} {xs : List α} (h : ∀ x ∈ xs, p x = true) :
    xs.filter p = xs ∧ xs.filter (fun x => !p x) = [] :=
  ⟨List.filter_eq_self.2 h, List.filter_eq_nil_iff.2 fun x hx => by simp [h x hx]⟩

theorem filter_of_forall_not {α : Type} {p : α → Bool} {xs : List α}
    (h : ∀ x ∈ xs, p x = false) : xs.filter p = [] ∧ xs.filter (fun x => !p x) = xs :=
  ⟨List.filter_eq_nil_iff.2 fun x hx => by simp [h x hx],
    List.filter_eq_self.2 fun x hx => by simp [h x hx]⟩

/-! ## Members that may be left out -/

theorem get?_textMember (key name : String) (text : Option String) :
    Assoc.get? key (textMember name text) = if name = key then text.map .string else none := by
  cases text <;> simp [textMember, Assoc.get?]

theorem get?_textsMember (key name : String) (texts : List String) :
    Assoc.get? key (textsMember name texts) =
      if name = key ∧ texts ≠ [] then some (.ofTexts texts) else none := by
  cases texts <;> simp [textsMember, Assoc.get?]

theorem HookNames.get?_member (key : String) (hooks : HookNames) :
    Assoc.get? key hooks.member =
      if "hooks" = key ∧ hooks ≠ {} then some hooks.toJson else none := by
  obtain ⟨pre, post⟩ := hooks
  cases pre <;> cases post <;> simp [member, isEmpty, Assoc.get?]

theorem keys_textMember_sublist (name : String) (text : Option String) :
    (Assoc.keys (textMember name text)).Sublist [name] := by
  cases text <;> simp [textMember, Assoc.keys]

theorem keys_textsMember_sublist (name : String) (texts : List String) :
    (Assoc.keys (textsMember name texts)).Sublist [name] := by
  cases texts <;> simp [textsMember, Assoc.keys]

theorem HookNames.keys_member_sublist (hooks : HookNames) :
    (Assoc.keys hooks.member).Sublist ["hooks"] := by
  rw [member]
  split <;> simp [Assoc.keys]

namespace Record

variable {names : List String} {field : String} {members : List (String × Json)}

/-- An object whose members are some of the fields, each at most once, gives no field twice. -/
theorem fits_of_sublist (h : (Assoc.keys members).Sublist names) (hnames : names.Nodup) :
    (Record.named (membersOf members)).fits names = true :=
  fits_membersOf names (hnames.sublist h)

theorem required_text (hfield : field ∈ names) {text : String}
    (h : Assoc.get? field members = some (.string text)) :
    (Record.named (membersOf members)).required names field (Tree.text? .typed) = some text := by
  rw [required_membersOf hfield h, Tree.text?_string]

theorem defaulted_flag (hfield : field ∈ names) {flag default : Bool}
    (h : Assoc.get? field members = some (.bool flag)) :
    (Record.named (membersOf members)).defaulted names field default (Tree.bool? .typed) =
      some flag := by
  rw [defaulted_membersOf hfield, h]
  exact Tree.bool?_bool flag

/-- A text that is left out where there is none is read back. -/
theorem defaulted_optionalText (text : Option String) (hfield : field ∈ names)
    (h : Assoc.get? field members = text.map .string) :
    (Record.named (membersOf members)).defaulted names field none (Tree.optionalText? .typed) =
      some text := by
  rw [defaulted_membersOf hfield, h]
  cases text with
  | none => rfl
  | some text => exact Tree.optionalText?_string text

/-- A list of texts that is left out where it is empty is read back. -/
theorem defaulted_texts (texts : List String) (hfield : field ∈ names)
    (h : Assoc.get? field members = if texts ≠ [] then some (.ofTexts texts) else none) :
    (Record.named (membersOf members)).defaulted names field [] (Tree.texts? .typed) =
      some texts := by
  rw [defaulted_membersOf hfield, h]
  split_ifs with htexts
  · exact Tree.texts?_ofTexts texts
  · rw [not_not.1 htexts]

end Record

/-- Hook names are read back. -/
theorem HookNames.ofTree?_toJson (hooks : HookNames) :
    ofTree? .typed (.ofJson hooks.toJson) = some hooks := by
  obtain ⟨pre, post⟩ := hooks
  obtain ⟨_, hrecord⟩ := Tree.record?_object (textsMember "pre" pre ++ textsMember "post" post)
  have hfits : (Record.named (Record.membersOf
      (textsMember "pre" pre ++ textsMember "post" post))).fits parts = true := by
    refine Record.fits_of_sublist ?_ (by decide)
    rw [Assoc.keys, List.map_append]
    exact (keys_textsMember_sublist "pre" pre).append (keys_textsMember_sublist "post" post)
  rw [ofTree?, toJson, hrecord]
  simp only [Option.bind_eq_bind, Option.bind_some, hfits, if_true]
  rw [Record.defaulted_texts pre (by decide) (by simp [Assoc.get?_append, get?_textsMember]),
    Record.defaulted_texts post (by decide) (by simp [Assoc.get?_append, get?_textsMember])]
  rfl

/-- Hook names that are left out where there are none are read back. -/
theorem Record.defaulted_hooks {names : List String} {members : List (String × Json)}
    (hooks : HookNames) (hfield : "hooks" ∈ names)
    (h : Assoc.get? "hooks" members = if hooks ≠ {} then some hooks.toJson else none) :
    (Record.named (membersOf members)).defaulted names "hooks" {} (HookNames.ofTree? .typed) =
      some hooks := by
  rw [defaulted_membersOf hfield, h]
  split_ifs with hhooks
  · exact hooks.ofTree?_toJson
  · rw [not_not.1 hhooks]

/-! ## Fields -/

namespace FieldDecl

/-! ### Every value written has content -/

theorem isBuffered_textsMember (name : String) (texts : List String) :
    ∀ member ∈ textsMember name texts, (Tree.ofJson member.2).isBuffered = true := by
  rw [textsMember]
  split <;> simp [Json.ofTexts]

theorem isBuffered_scalarMembers (kind : ScalarKind) (values : List String) :
    ∀ member ∈ scalarMembers kind values, (Tree.ofJson member.2).isBuffered = true := by
  simpa [scalarMembers] using isBuffered_textsMember "enum_values" values

theorem isBuffered_hooks (hooks : HookNames) :
    ∀ member ∈ hooks.member, (Tree.ofJson member.2).isBuffered = true := by
  have hpre := isBuffered_textsMember "pre" hooks.pre
  have hpost := isBuffered_textsMember "post" hooks.post
  rw [HookNames.member]
  split
  · simp
  · simp only [HookNames.toJson, List.mem_singleton, forall_eq, Tree.isBuffered_object,
      List.mem_append]
    exact fun member hmem => hmem.elim (hpre member) (hpost member)

mutual

theorem isBuffered_toJson : (field : FieldDecl) → (Tree.ofJson (toJson field)).isBuffered = true
  | ⟨name, shape, nonNull, hidden, description, hooks⟩ => by
    have hshape := isBuffered_shapeMembers shape
    have hhooks := isBuffered_hooks hooks
    have hdescription : ∀ member ∈ textMember "description" description,
        (Tree.ofJson member.2).isBuffered = true := by
      cases description <;> simp [textMember]
    rw [toJson, Tree.isBuffered_object]
    simp only [List.mem_append, List.mem_cons, List.not_mem_nil, or_false]
    rintro member ((((rfl | hmem) | rfl | rfl) | hmem) | hmem)
    · exact Tree.isBuffered_string name
    · exact hshape member hmem
    · exact Tree.isBuffered_bool nonNull
    · exact Tree.isBuffered_bool hidden
    · exact hdescription member hmem
    · exact hhooks member hmem

theorem isBuffered_shapeMembers : (shape : FieldShape FieldDecl) →
    ∀ member ∈ shapeMembers shape, (Tree.ofJson member.2).isBuffered = true
  | .scalar kind values => isBuffered_scalarMembers kind values
  | .list element => by
    simpa [shapeMembers] using isBuffered_elementMembers element
  | .nested fields => by
    simpa [shapeMembers] using isBuffered_allToJson fields
  | .embedded _ fields => by
    simpa [shapeMembers] using isBuffered_allToJson fields
  | .reference _ _ => by
    simp [shapeMembers]

theorem isBuffered_elementMembers : (element : ElementShape FieldDecl) →
    ∀ member ∈ elementMembers element, (Tree.ofJson member.2).isBuffered = true
  | .scalar kind values => isBuffered_scalarMembers kind values
  | .nested fields => by
    simpa [elementMembers] using isBuffered_allToJson fields
  | .embedded _ fields => by
    simpa [elementMembers] using isBuffered_allToJson fields

theorem isBuffered_allToJson : (fields : List FieldDecl) →
    ∀ value ∈ allToJson fields, (Tree.ofJson value).isBuffered = true
  | [] => by simp [allToJson]
  | field :: rest => by
    simpa [allToJson] using ⟨isBuffered_toJson field, isBuffered_allToJson rest⟩

end

/-! ### The kind of a shape and its other parts -/

/-- An object that starts with its kind, followed by some of the parts of that kind in order, splits
into the kind and a record of these parts. -/
theorem splitKind?_membersOf (kinds parts : List String) (kind : String)
    (rest : List (String × Json)) (hkind : kind ∈ kinds)
    (hkeys : (Assoc.keys rest).Sublist parts) (hparts : ("kind" :: parts).Nodup) :
    (∃ h, splitKind? kinds (.named (Record.membersOf (("kind", .string kind) :: rest))) =
        some (kind, ⟨.named (Record.membersOf rest), h⟩)) ∧
      (Record.named (Record.membersOf rest)).fits parts = true := by
  obtain ⟨hnotPart, hnodup⟩ := List.nodup_cons.1 hparts
  have hother : ∀ member ∈ Record.membersOf rest, isKindPart member = false := by
    intro member hmem
    obtain ⟨source, hsource, rfl⟩ := List.mem_map.1 hmem
    have hpart : source.1 ∈ parts := hkeys.subset (List.mem_map_of_mem hsource)
    have hne : source.1 ≠ "kind" := fun heq => hnotPart (heq ▸ hpart)
    simpa [isKindPart] using hne
  obtain ⟨hnone, hall⟩ := filter_of_forall_not hother
  have hkinds : (Record.membersOf (("kind", .string kind) :: rest)).filter isKindPart =
      [(.name "kind", .ofJson (.string kind))] :=
    congrArg (_ :: ·) hnone
  have hothers : (Record.membersOf (("kind", .string kind) :: rest)).filter
      (fun member => !isKindPart member) = Record.membersOf rest :=
    hall
  have hval : (splitKind? kinds (.named (Record.membersOf (("kind", .string kind) :: rest)))).map
      (fun found => (found.1, found.2.val)) = some (kind, .named (Record.membersOf rest)) := by
    rw [splitKind?, hkinds]
    simp [kind?, Record.fieldName?_name, hkind, hothers]
  obtain ⟨⟨found, others, hsize⟩, hsome, hfound⟩ := Option.map_eq_some_iff.1 hval
  simp only [Prod.mk.injEq] at hfound
  obtain ⟨rfl, rfl⟩ := hfound
  exact ⟨⟨hsize, hsome⟩, Record.fits_of_sublist hkeys hnodup⟩

section Parts

variable (kinds : List String)

/-- A scalar shape's members split into the kind, the scalar's kind and its enum values. -/
theorem scalarMembers_parts (hkinds : "scalar" ∈ kinds) {kind : ScalarKind} (hkind : kind.IsRead)
    (values : List String) :
    let parts := ["type", "enum_values"]
    let rest : Record := .named (Record.membersOf
      (("type", .string kind.name) :: textsMember "enum_values" values))
    (∃ h, splitKind? kinds (.named (Record.membersOf (scalarMembers kind values))) =
        some ("scalar", ⟨rest, h⟩)) ∧
      rest.fits parts = true ∧ rest.required parts "type" scalarKind? = some kind ∧
      rest.defaulted parts "enum_values" [] (Tree.texts? .typed) = some values := by
  intro parts rest
  obtain ⟨hsplit, hfits⟩ := splitKind?_membersOf kinds parts "scalar"
    (("type", .string kind.name) :: textsMember "enum_values" values) hkinds
    ((keys_textsMember_sublist "enum_values" values).cons_cons "type") (by decide)
  refine ⟨hsplit, hfits, ?_, ?_⟩
  · rw [Record.required_membersOf (by decide) rfl, scalarKind?, Tree.text?_string, Option.map_some,
      hkind.ofName_name]
  · exact Record.defaulted_texts values (by decide) (by simp [Assoc.get?, get?_textsMember])

/-- A nested shape's members split into the kind and the list of fields. -/
theorem nestedMembers_parts (hkinds : "nested" ∈ kinds) (fields : List Json) :
    let members := [("fields", .array fields)]
    let rest : Record := .named (Record.membersOf members)
    (∃ h, splitKind? kinds (.named (Record.membersOf (("kind", .string "nested") :: members))) =
        some ("nested", ⟨rest, h⟩)) ∧
      rest.fits ["fields"] = true ∧
      ∃ h, rest.part? ["fields"] "fields" = some ⟨.ofJson (.array fields), h⟩ := by
  intro members rest
  obtain ⟨hsplit, hfits⟩ := splitKind?_membersOf kinds ["fields"] "nested" members hkinds
    (.refl _) (by decide)
  have hget : Assoc.get? "fields" members = some (.array fields) := rfl
  exact ⟨hsplit, hfits, Record.part?_membersOf_eq_some _ hget (by decide)⟩

/-- An embedded shape's members split into the kind, the model's name and the list of fields. -/
theorem embeddedMembers_parts (hkinds : "embedded" ∈ kinds) (model : String)
    (fields : List Json) :
    let parts := ["model", "fields"]
    let members := [("model", .string model), ("fields", .array fields)]
    let rest : Record := .named (Record.membersOf members)
    (∃ h, splitKind? kinds (.named (Record.membersOf (("kind", .string "embedded") :: members))) =
        some ("embedded", ⟨rest, h⟩)) ∧
      rest.fits parts = true ∧ rest.required parts "model" (Tree.text? .typed) = some model ∧
      ∃ h, rest.part? parts "fields" = some ⟨.ofJson (.array fields), h⟩ := by
  intro parts members rest
  obtain ⟨hsplit, hfits⟩ := splitKind?_membersOf kinds parts "embedded" members hkinds
    (.refl _) (by decide)
  have hget : Assoc.get? "fields" members = some (.array fields) := rfl
  exact ⟨hsplit, hfits, Record.required_text (by decide) rfl,
    Record.part?_membersOf_eq_some _ hget (by decide)⟩

end Parts

/-! ### What every field has, and the rest -/

theorem isCommonPart_membersOf {members : List (String × Json)} {member : PartKey × Tree}
    (h : member ∈ Record.membersOf members) :
    ∃ name ∈ Assoc.keys members, isCommonPart member = commonParts.contains name := by
  obtain ⟨source, hsource, rfl⟩ := List.mem_map.1 h
  exact ⟨source.1, List.mem_map_of_mem hsource, rfl⟩

/-- Members that every field has stay with their like. -/
theorem filter_isCommonPart {members : List (String × Json)}
    (h : ∀ name ∈ Assoc.keys members, name ∈ commonParts) :
    (Record.membersOf members).filter isCommonPart = Record.membersOf members ∧
      (Record.membersOf members).filter (fun member => !isCommonPart member) = [] := by
  refine filter_of_forall fun member hmem => ?_
  obtain ⟨name, hname, heq⟩ := isCommonPart_membersOf hmem
  simpa [heq] using h name hname

/-- All other members make up the shape. -/
theorem filter_not_isCommonPart {members : List (String × Json)}
    (h : ∀ name ∈ Assoc.keys members, name ∉ commonParts) :
    (Record.membersOf members).filter isCommonPart = [] ∧
      (Record.membersOf members).filter (fun member => !isCommonPart member) =
        Record.membersOf members := by
  refine filter_of_forall_not fun member hmem => ?_
  obtain ⟨name, hname, heq⟩ := isCommonPart_membersOf hmem
  simpa [heq] using h name hname

/-- No shape has a member that every field has. -/
theorem keys_shapeMembers (shape : FieldShape FieldDecl) :
    ∀ name ∈ Assoc.keys (shapeMembers shape), name ∉ commonParts := by
  cases shape with
  | scalar kind values =>
    have hkeys : (Assoc.keys (shapeMembers (.scalar kind values))).Sublist
        ["kind", "type", "enum_values"] :=
      ((keys_textsMember_sublist "enum_values" values).cons_cons "type").cons_cons "kind"
    exact fun name hname => (by decide : ∀ name ∈ ["kind", "type", "enum_values"],
      name ∉ commonParts) name (hkeys.subset hname)
  | list _ | nested _ | embedded _ _ | reference _ _ =>
    simp [shapeMembers, Assoc.keys, commonParts]

/-- The members that are written after the shape of a field. -/
def laterMembers (field : FieldDecl) : List (String × Json) :=
  [("non_null", .bool field.nonNull), ("hidden", .bool field.hidden)]
    ++ textMember "description" field.description ++ field.hooks.member

/-- The members that every field has, as a field is written. -/
def commonMembers (field : FieldDecl) : List (String × Json) :=
  ("name", .string field.name) :: laterMembers field

theorem toJson_eq (field : FieldDecl) :
    toJson field = .object
      (("name", .string field.name) :: (shapeMembers field.shape ++ laterMembers field)) := by
  obtain ⟨name, shape, nonNull, hidden, description, hooks⟩ := field
  simp [toJson, laterMembers]

theorem keys_laterMembers_sublist (field : FieldDecl) :
    (Assoc.keys (laterMembers field)).Sublist ["non_null", "hidden", "description", "hooks"] := by
  rw [laterMembers, Assoc.keys, List.map_append, List.map_append]
  exact ((List.Sublist.refl ["non_null", "hidden"]).append
    (keys_textMember_sublist "description" field.description)).append
    field.hooks.keys_member_sublist

/-- What every field has and the members of its shape are told apart in a field as written. -/
theorem filter_membersOf (field : FieldDecl) :
    let members := Record.membersOf
      (("name", .string field.name) :: (shapeMembers field.shape ++ laterMembers field))
    members.filter isCommonPart = Record.membersOf (commonMembers field) ∧
      members.filter (fun member => !isCommonPart member) =
        Record.membersOf (shapeMembers field.shape) := by
  have hkeys : ∀ name ∈ Assoc.keys (laterMembers field), name ∈ commonParts := fun name hname =>
    (by decide : ["non_null", "hidden", "description", "hooks"] ⊆ commonParts)
      ((keys_laterMembers_sublist field).subset hname)
  obtain ⟨hshape, hshape'⟩ := filter_not_isCommonPart (keys_shapeMembers field.shape)
  obtain ⟨hlater, hlater'⟩ := filter_isCommonPart hkeys
  have hname : isCommonPart (.name "name", .ofJson (.string field.name)) = true := by
    simp [isCommonPart, commonParts]
  simp only [Record.membersOf_cons, Record.membersOf_append, List.filter_cons, List.filter_append,
    commonMembers, hname, hshape, hlater, hshape', hlater', List.nil_append, List.append_nil,
    if_true, Bool.not_true, Bool.false_eq_true, if_false, and_self]

/-- What every field has is read back. -/
theorem commonMembers_parts (field : FieldDecl) :
    let common : Record := .named (Record.membersOf (commonMembers field))
    common.fits commonParts = true ∧
      common.required commonParts "name" (Tree.text? .typed) = some field.name ∧
      common.defaulted commonParts "non_null" false (Tree.bool? .typed) = some field.nonNull ∧
      common.defaulted commonParts "hidden" false (Tree.bool? .typed) = some field.hidden ∧
      common.defaulted commonParts "description" none (Tree.optionalText? .typed) =
        some field.description ∧
      common.defaulted commonParts "hooks" {} (HookNames.ofTree? .typed) = some field.hooks := by
  have hget (key : String) : Assoc.get? key (commonMembers field) =
      if "name" = key then some (.string field.name)
      else if "non_null" = key then some (.bool field.nonNull)
      else if "hidden" = key then some (.bool field.hidden)
      else (if "description" = key then field.description.map .string else none).or
        (if "hooks" = key ∧ field.hooks ≠ {} then some field.hooks.toJson else none) := by
    simp only [commonMembers, laterMembers, List.cons_append, List.nil_append, Assoc.get?,
      Assoc.get?_append, get?_textMember, HookNames.get?_member]
  refine ⟨?_, ?_, ?_, ?_, ?_, ?_⟩
  · exact Record.fits_of_sublist ((keys_laterMembers_sublist field).cons_cons "name") (by decide)
  · exact Record.required_text (by decide) (by simp [hget])
  · exact Record.defaulted_flag (by decide) (by simp [hget])
  · exact Record.defaulted_flag (by decide) (by simp [hget])
  · exact Record.defaulted_optionalText _ (by decide) (by simp [hget])
  · exact Record.defaulted_hooks _ (by decide) (by simp [hget])

/-! ### Fields and shapes -/

mutual

/-- A field as written is read back. -/
theorem ofTree?_toJson : (field : FieldDecl) → KindsRead field →
    ofTree? .typed (.ofJson (toJson field)) = some field
  | ⟨name, shape, nonNull, hidden, description, hooks⟩, h => by
    have hshape := shapeOf?_shapeMembers shape h
    have hbuffered : (Record.membersOf (shapeMembers shape)).all
        (fun member => member.2.isBuffered) = true := by
      simpa [Record.membersOf] using isBuffered_shapeMembers shape
    obtain ⟨hcommon, hothers⟩ := filter_membersOf ⟨name, shape, nonNull, hidden, description, hooks⟩
    obtain ⟨hfits, hname, hnonNull, hhidden, hdescription, hhooks⟩ :=
      commonMembers_parts ⟨name, shape, nonNull, hidden, description, hooks⟩
    rw [toJson_eq, Tree.ofJson, ofTree?]
    split
    · next hnone =>
      rw [Record.members?_ofJsonMembers] at hnone
      cases hnone
    · next hsome =>
      rw [Record.members?_ofJsonMembers] at hsome
      cases hsome
      simp only [hcommon, hothers, hfits, hbuffered, hname, hnonNull, hhidden, hdescription, hhooks,
        hshape, Bool.and_true, if_true, Option.bind_eq_bind, Option.bind_some]
      rfl

/-- The shape of a field as written is read back. -/
theorem shapeOf?_shapeMembers : (shape : FieldShape FieldDecl) → ShapeKindsRead shape →
    shapeOf? (.named (Record.membersOf (shapeMembers shape))) = some shape
  | .scalar kind values, h => by
    obtain ⟨⟨_, hsplit⟩, hfits, htype, hvalues⟩ :=
      scalarMembers_parts shapeKinds (by decide) h values
    rw [shapeOf?, shapeMembers, hsplit]
    simp only [Option.bind_eq_bind, Option.bind_some, hfits, htype, hvalues, if_true]
    rfl
  | .list element, h => by
    obtain ⟨⟨_, hsplit⟩, hfits⟩ := splitKind?_membersOf shapeKinds ["element"] "list"
      [("element", .object (elementMembers element))] (by decide) (.refl _) (by decide)
    have hget : Assoc.get? "element" [("element", Json.object (elementMembers element))] =
      some (.object (elementMembers element)) := rfl
    obtain ⟨_, hpart⟩ := Record.part?_membersOf_eq_some ["element"] hget (by decide)
    obtain ⟨_, hrecord⟩ := Tree.record?_object (elementMembers element)
    rw [shapeOf?, shapeMembers, hsplit]
    simp only [Option.bind_eq_bind, Option.bind_some, hfits, if_true, hpart, hrecord,
      elementOf?_elementMembers element h]
    rfl
  | .nested fields, h => by
    obtain ⟨⟨_, hsplit⟩, hfits, _, hpart⟩ :=
      nestedMembers_parts shapeKinds (by decide) (allToJson fields)
    obtain ⟨_, hitems⟩ := Tree.items?_array (allToJson fields)
    rw [shapeOf?, shapeMembers, hsplit]
    simp only [Option.bind_eq_bind, Option.bind_some, hfits, if_true, hpart, hitems,
      allOf?_allToJson fields h]
    rfl
  | .embedded model fields, h => by
    obtain ⟨⟨_, hsplit⟩, hfits, hmodel, _, hpart⟩ :=
      embeddedMembers_parts shapeKinds (by decide) model (allToJson fields)
    obtain ⟨_, hitems⟩ := Tree.items?_array (allToJson fields)
    rw [shapeOf?, shapeMembers, hsplit]
    simp only [Option.bind_eq_bind, Option.bind_some, hfits, if_true, hmodel, hpart, hitems,
      allOf?_allToJson fields h]
    rfl
  | .reference target cardinality, _ => by
    obtain ⟨⟨_, hsplit⟩, hfits⟩ := splitKind?_membersOf shapeKinds ["target", "cardinality"]
      "reference" [("target", .string target), ("cardinality", .string cardinality.name)]
      (by decide) (.refl _) (by decide)
    rw [shapeOf?, shapeMembers, hsplit]
    -- the last kind is read by the default branch, so the names of the others are told apart
    simp only [Option.bind_eq_bind, Option.bind_some, hfits, if_true, String.reduceEq, imp_false,
      not_false_eq_true]
    rw [Record.required_text (by decide) rfl, Record.defaulted_membersOf (by decide)]
    cases cardinality <;> rfl

/-- The shape of a list's elements as written is read back. -/
theorem elementOf?_elementMembers : (element : ElementShape FieldDecl) → ElementKindsRead element →
    elementOf? (.named (Record.membersOf (elementMembers element))) = some element
  | .scalar kind values, h => by
    obtain ⟨⟨_, hsplit⟩, hfits, htype, hvalues⟩ :=
      scalarMembers_parts elementKinds (by decide) h values
    rw [elementOf?, elementMembers, hsplit]
    simp only [Option.bind_eq_bind, Option.bind_some, hfits, htype, hvalues, if_true]
    rfl
  | .nested fields, h => by
    obtain ⟨⟨_, hsplit⟩, hfits, _, hpart⟩ :=
      nestedMembers_parts elementKinds (by decide) (allToJson fields)
    obtain ⟨_, hitems⟩ := Tree.items?_array (allToJson fields)
    rw [elementOf?, elementMembers, hsplit]
    simp only [Option.bind_eq_bind, Option.bind_some, hfits, if_true, hpart, hitems,
      allOf?_allToJson fields h]
    rfl
  | .embedded model fields, h => by
    obtain ⟨⟨_, hsplit⟩, hfits, hmodel, _, hpart⟩ :=
      embeddedMembers_parts elementKinds (by decide) model (allToJson fields)
    obtain ⟨_, hitems⟩ := Tree.items?_array (allToJson fields)
    rw [elementOf?, elementMembers, hsplit]
    simp only [Option.bind_eq_bind, Option.bind_some, hfits, if_true, hmodel, hpart, hitems,
      allOf?_allToJson fields h, String.reduceEq, imp_false, not_false_eq_true]
    rfl

/-- Fields as written are read back. -/
theorem allOf?_allToJson : (fields : List FieldDecl) → AllKindsRead fields →
    allOf? .typed ((allToJson fields).map .ofJson) = some fields
  | [], _ => by rw [allToJson, List.map_nil, allOf?]
  | field :: rest, h => by
    rw [allToJson, List.map_cons, allOf?, ofTree?_toJson field h.1, allOf?_allToJson rest h.2]
    rfl

end

end FieldDecl

end ModelGraph
