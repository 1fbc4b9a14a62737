import ModelGraph.Proofs.Model.Fields

/-!
# Declared models through JSON and back

A set of models that was read from JSON is written as JSON that reads as the same set, whatever is
nested in its fields and whichever texts, lists and hooks are left out. What a set has to satisfy
for this is exactly that its scalar kinds are what texts are read as: these sets are the ones that
JSON values are read as, and the ones that are read back from what they are written as.

## Main definitions

- `ModelDecl.KindsRead`, `ModelSet.KindsRead` — models whose scalar kinds are as read

## Main statements

- `ModelDecl.ofTree?_toJson`, `ModelSet.ofTree?_toJson` — models with kinds as read are read back
- `ModelSet.kindsRead_of_ofTree?` — a set as read has kinds as read
- `ModelSet.round_trip` — what JSON values are read as is read back from what it is written as
-/

namespace ModelGraph

/-! ## Results of readers -/

/-- A field with a default has the default or was read. -/
theorem Record.of_defaulted_eq_some {α : Type} {r : Record} {names : List String} {field : String}
    {default a : α} {read : Tree → Option α} (h : r.defaulted names field default read = some a) :
    a = default ∨ ∃ t, read t = some a := by
  rw [defaulted] at h
  split at h
  · exact .inl (Option.some.inj h).symm
  · next t _ _ => exact .inr ⟨t, h⟩

/-- Whatever is read item by item was read from an item. -/
theorem exists_of_mem_of_mapM {α β : Type} {read : α → Option β} {items : List α} {results : List β}
    (h : items.mapM read = some results) {result : β} (hmem : result ∈ results) :
    ∃ item ∈ items, read item = some result := by
  induction items generalizing results with
  | nil =>
    cases h
    cases hmem
  | cons item rest ih =>
    simp only [List.mapM_cons, Option.bind_eq_bind, Option.bind_eq_some_iff] at h
    obtain ⟨first, hfirst, others, hothers, hresults⟩ := h
    cases hresults
    rcases List.mem_cons.1 hmem with rfl | hmem
    · exact ⟨item, List.mem_cons_self, hfirst⟩
    · obtain ⟨source, hsource, hread⟩ := ih hothers hmem
      exact ⟨source, List.mem_cons_of_mem _ hsource, hread⟩

/-! ## Models -/

namespace ModelDecl

/-- Whether the scalar kinds of a model's fields are what some text is read as. -/
def KindsRead (model : ModelDecl) : Prop :=
  FieldDecl.AllKindsRead model.fields

/-- The members of a model as written. -/
def members (model : ModelDecl) : List (String × Json) :=
  [("key", .string model.key), ("name", .string model.name)]
    ++ textMember "version" model.version ++ textMember "description" model.description
    ++ [("fields", .array (FieldDecl.allToJson model.fields))] ++ model.hooks.member

theorem toJson_eq (model : ModelDecl) : model.toJson = .object model.members :=
  rfl

theorem keys_members_sublist (model : ModelDecl) : (Assoc.keys model.members).Sublist parts := by
  simp only [members, Assoc.keys, List.map_append]
  exact ((((List.Sublist.refl ["key", "name"]).append
    (keys_textMember_sublist "version" model.version)).append
    (keys_textMember_sublist "description" model.description)).append
    (List.Sublist.refl ["fields"])).append model.hooks.keys_member_sublist

/-- A model with kinds as read is read back. -/
theorem ofTree?_toJson (model : ModelDecl) (h : model.KindsRead) :
    ofTree? .typed (.ofJson model.toJson) = some model := by
  let r : Record := .named (Record.membersOf model.members)
  have hget (key : String) : Assoc.get? key model.members =
      (((((if "key" = key then some (.string model.key)
        else if "name" = key then some (.string model.name) else none).or
        (if "version" = key then model.version.map .string else none)).or
        (if "description" = key then model.description.map .string else none)).or
        (if "fields" = key then some (.array (FieldDecl.allToJson model.fields)) else none)).or
        (if "hooks" = key ∧ model.hooks ≠ {} then some model.hooks.toJson else none)) := by
    simp only [members, Assoc.get?_append, Assoc.get?, get?_textMember, HookNames.get?_member]
  have hfits : r.fits parts = true :=
    Record.fits_of_sublist model.keys_members_sublist (by decide)
  have hkey : r.required parts "key" (Tree.text? .typed) = some model.key :=
    Record.required_text (by decide) (by simp [hget])
  have hname : r.required parts "name" (Tree.text? .typed) = some model.name :=
    Record.required_text (by decide) (by simp [hget])
  have hversion : r.defaulted parts "version" none (Tree.optionalText? .typed) =
      some model.version :=
    Record.defaulted_optionalText _ (by decide) (by simp [hget])
  have hdescription : r.defaulted parts "description" none (Tree.optionalText? .typed) =
      some model.description :=
    Record.defaulted_optionalText _ (by decide) (by simp [hget])
  have hhooks : r.defaulted parts "hooks" {} (HookNames.ofTree? .typed) = some model.hooks :=
    Record.defaulted_hooks _ (by decide) (by simp [hget])
  have hfields : r.defaulted parts "fields" [] (FieldDecl.listOf? .typed) = some model.fields := by
    obtain ⟨_, hitems⟩ := Tree.items?_array (FieldDecl.allToJson model.fields)
    rw [Record.defaulted_membersOf (by decide), hget]
    simp only [String.reduceEq, if_false, if_true, Option.or_none, Option.none_or, Option.some_or]
    rw [FieldDecl.listOf?, hitems]
    exact FieldDecl.allOf?_allToJson model.fields h
  obtain ⟨_, hrecord⟩ := Tree.record?_object model.members
  rw [ofTree?, toJson_eq, hrecord]
  simp only [Option.bind_eq_bind, Option.bind_some, r, hfits, hkey, hname, hversion, hdescription,
    hfields, hhooks, if_true]
  rfl

/-- A list of models is read from an array item by item. -/
theorem listOf?_array (items : List Json) :
    listOf? .typed (.ofJson (.array items)) =
      items.mapM fun item => ofTree? .typed (.ofJson item) := by
  obtain ⟨_, hitems⟩ := Tree.items?_array items
  rw [listOf?, hitems]
  exact List.mapM_map ..

/-- A model as read has kinds as read. -/
theorem kindsRead_of_ofTree? {reading : Reading} {t : Tree} {model : ModelDecl}
    (h : ofTree? reading t = some model) : model.KindsRead := by
  simp only [ofTree?, Option.bind_eq_bind, Option.bind_eq_some_iff] at h
  obtain ⟨⟨r, _⟩, -, h⟩ := h
  dsimp only at h
  split at h
  · simp only [Option.bind_eq_some_iff] at h
    obtain ⟨key, -, name, -, version, -, description, -, fields, hfields, hooks, -, hmodel⟩ := h
    cases hmodel
    rcases Record.of_defaulted_eq_some hfields with rfl | ⟨t', hlist⟩
    · trivial
    · simp only [FieldDecl.listOf?, Option.bind_eq_bind, Option.bind_eq_some_iff] at hlist
      obtain ⟨⟨items, _⟩, -, hall⟩ := hlist
      exact FieldDecl.allKindsRead_of_allOf? items hall
  · cases h

end ModelDecl

/-! ## Sets of models -/

namespace ModelSet

/-- Whether the scalar kinds of all models are what some text is read as. -/
def KindsRead (set : ModelSet) : Prop :=
  ∀ model ∈ set.models, model.KindsRead

/-- A set with kinds as read is read back. -/
theorem ofTree?_toJson (set : ModelSet) (h : set.KindsRead) :
    ofTree? .typed (.ofJson set.toJson) = some set := by
  obtain ⟨models⟩ := set
  have hread : (models.map ModelDecl.toJson).mapM
      (fun item => ModelDecl.ofTree? .typed (.ofJson item)) = some models :=
    mapM_map_eq_some fun model hmem => model.ofTree?_toJson (h model hmem)
  let members := [("models", Json.array (models.map ModelDecl.toJson))]
  let r : Record := .named (Record.membersOf members)
  have hfits : r.fits ["models"] = true := Record.fits_of_sublist (.refl _) (by decide)
  have hmodels : r.defaulted ["models"] "models" [] (ModelDecl.listOf? .typed) = some models := by
    rw [Record.defaulted_membersOf (by decide)]
    exact (ModelDecl.listOf?_array _).trans hread
  obtain ⟨_, hrecord⟩ := Tree.record?_object members
  rw [ofTree?, toJson, hrecord]
  simp only [Option.bind_eq_bind, Option.bind_some, r, hfits, hmodels, if_true]
  rfl

/-- A set as read has kinds as read. -/
theorem kindsRead_of_ofTree? {reading : Reading} {t : Tree} {set : ModelSet}
    (h : ofTree? reading t = some set) : set.KindsRead := by
  simp only [ofTree?, Option.bind_eq_bind, Option.bind_eq_some_iff] at h
  obtain ⟨⟨r, _⟩, -, h⟩ := h
  dsimp only at h
  split at h
  · simp only [Option.bind_eq_some_iff] at h
    obtain ⟨models, hmodels, hset⟩ := h
    cases hset
    intro model hmem
    rcases Record.of_defaulted_eq_some hmodels with rfl | ⟨t', hlist⟩
    · cases hmem
    · simp only [ModelDecl.listOf?, Option.bind_eq_bind, Option.bind_eq_some_iff] at hlist
      obtain ⟨⟨items, _⟩, -, hall⟩ := hlist
      obtain ⟨item, -, hitem⟩ := exists_of_mem_of_mapM hall hmem
      exact ModelDecl.kindsRead_of_ofTree? hitem
  · cases h

/-- **Sets of models go through JSON and back.** Whatever a JSON value is read as is read back from
what it is written as. So is every set whose scalar kinds are what texts are read as, and these are
exactly the sets that JSON values are read as. -/
theorem round_trip (set : ModelSet) :
    (∀ value : Json, ofTree? .typed (.ofJson value) = some set →
      ofTree? .typed (.ofJson set.toJson) = some set) ∧
    (set.KindsRead → ofTree? .typed (.ofJson set.toJson) = some set) ∧
    (set.KindsRead ↔ ∃ value : Json, ofTree? .typed (.ofJson value) = some set) := by
  refine ⟨fun value h => ?_, set.ofTree?_toJson, fun h => ?_, fun ⟨value, h⟩ => ?_⟩
  · exact set.ofTree?_toJson (kindsRead_of_ofTree? h)
  · exact ⟨set.toJson, set.ofTree?_toJson h⟩
  · exact kindsRead_of_ofTree? h

end ModelSet

end ModelGraph
