import ModelGraph.Cache.Key
import ModelGraph.Proofs.Text.Bytes

/-!
# What a schema key tells

The key of a list of models is a digest over the cache identities of its members, each followed by a
zero byte. A list can be read back from these bytes when no identity holds a zero character, and a
key and a version can be read back from an identity when the key holds no `@`. Lists of such models
that share a schema key have the same keys and versions in the same order, or their bytes are a
collision of the digest.

Nothing keeps either character out of keys and versions. The key `users@2` without a version and the
key `users` with the version `2` have one identity, so one of the two is served the schema of the
other.

## Main definitions

- `ModelDecl.tag` — the key and the version of a model
- `ModelDecl.Plain` — a model whose key and version can be read back
- `Blake3.Collide` — two messages with one digest

## Main statements

- `identityBytes_eq_iff` — the bytes tell the identities up to zero characters
- `Blake3.digest_eq_of_hex_eq` — the written digest tells the digest
- `schemaKey_tells` — what two lists with one schema key have in common
-/

namespace ModelGraph

/-! ### Blocks that can be read back -/

section Blocks

variable {α β : Type}

/-- What stands before the first separator, and what follows it, can be read back. -/
theorem append_separator_inj {separator : β} {first other rest tail : List β}
    (hfirst : separator ∉ first) (hother : separator ∉ other) :
    first ++ separator :: rest = other ++ separator :: tail ↔ first = other ∧ rest = tail := by
  constructor
  · intro h
    induction first generalizing other with
    | nil =>
      cases other with
      | nil => exact ⟨rfl, (List.cons.inj h).2⟩
      | cons y other => exact absurd (List.mem_cons.2 (.inl (List.cons.inj h).1)) hother
    | cons x first ih =>
      cases other with
      | nil => exact absurd (List.mem_cons.2 (.inl (List.cons.inj h).1.symm)) hfirst
      | cons y other =>
        obtain ⟨rfl, htail⟩ := List.cons.inj h
        obtain ⟨rfl, hrest⟩ := ih (fun hmem => hfirst (List.mem_cons_of_mem _ hmem))
          (fun hmem => hother (List.mem_cons_of_mem _ hmem)) htail
        exact ⟨rfl, hrest⟩
  · rintro ⟨rfl, rfl⟩
    rfl

/-- Lists without a terminator can be read back when each is followed by it. -/
theorem eq_of_flatMap_terminated {stop : β} {f : α → List β} {xs ys : List α}
    (hxs : ∀ x ∈ xs, stop ∉ f x) (hys : ∀ y ∈ ys, stop ∉ f y)
    (h : xs.flatMap (fun x => f x ++ [stop]) = ys.flatMap (fun y => f y ++ [stop])) :
    xs.map f = ys.map f := by
  induction xs generalizing ys with
  | nil =>
    cases ys with
    | nil => rfl
    | cons y ys => simp at h
  | cons x xs ih =>
    cases ys with
    | nil => simp at h
    | cons y ys =>
      simp only [List.flatMap_cons, List.append_assoc, List.singleton_append] at h
      obtain ⟨hx, hxs⟩ := List.forall_mem_cons.1 hxs
      obtain ⟨hy, hys⟩ := List.forall_mem_cons.1 hys
      obtain ⟨hfirst, hrest⟩ := (append_separator_inj hx hy).1 h
      rw [List.map_cons, List.map_cons, hfirst, ih hxs hys hrest]

theorem map_eq_map_congr {γ : Type} {f : α → β} {g : α → γ} {xs ys : List α}
    (h : ∀ x ∈ xs, ∀ y ∈ ys, (f x = f y ↔ g x = g y)) :
    xs.map f = ys.map f ↔ xs.map g = ys.map g := by
  induction xs generalizing ys with
  | nil => cases ys <;> simp
  | cons x xs ih =>
    cases ys with
    | nil => simp
    | cons y ys =>
      have hrest := ih fun x' hx y' hy =>
        h x' (List.mem_cons_of_mem x hx) y' (List.mem_cons_of_mem y hy)
      have hfirst := h x (List.mem_cons_self ..) y (List.mem_cons_self ..)
      simp only [List.map_cons, List.cons.injEq, hfirst, hrest]

/-- Blocks of one length, which is not zero, can be read back. -/
theorem eq_of_flatMap_blocks {f : α → List β} {length : Nat} (hpos : 0 < length)
    (hlength : ∀ x, (f x).length = length) (hinj : Function.Injective f) {xs ys : List α}
    (h : xs.flatMap f = ys.flatMap f) : xs = ys := by
  have hne : ∀ x, f x ≠ [] := fun x => List.ne_nil_of_length_pos (by rw [hlength x]; exact hpos)
  induction xs generalizing ys with
  | nil =>
    cases ys with
    | nil => rfl
    | cons y ys => simp [hne] at h
  | cons x xs ih =>
    cases ys with
    | nil => simp [hne] at h
    | cons y ys =>
      rw [List.flatMap_cons, List.flatMap_cons] at h
      obtain ⟨hfirst, hrest⟩ := List.append_inj h ((hlength x).trans (hlength y).symm)
      rw [hinj hfirst, ih hrest]

end Blocks

/-! ### The written digest -/

namespace Blake3

/-- Two messages with one digest. -/
def Collide (message other : List UInt8) : Prop :=
  message ≠ other ∧ digest message = digest other

theorem hexByte_injective : Function.Injective hexByte := by
  have hdigits : ∀ m n : Fin 16, "0123456789abcdef".toList.getD m '0' =
      "0123456789abcdef".toList.getD n '0' → m = n := by decide
  intro byte other h
  have hbyte := byte.toNat_lt
  have hother := other.toNat_lt
  have hpair := List.cons.inj h
  have hhigh := hdigits ⟨byte.toNat / 16, by omega⟩ ⟨other.toNat / 16, by omega⟩ hpair.1
  have hlow := hdigits ⟨byte.toNat % 16, by omega⟩ ⟨other.toNat % 16, by omega⟩
    (List.cons.inj hpair.2).1
  rw [Fin.mk.injEq] at hhigh hlow
  apply UInt8.toNat_inj.1
  omega

/-- The written digest tells the digest. -/
theorem digest_eq_of_hex_eq {message other : List UInt8} (h : hex message = hex other) :
    digest message = digest other := by
  have hlength : ∀ byte, (hexByte byte).length = 2 := fun _ => rfl
  exact eq_of_flatMap_blocks (by decide) hlength hexByte_injective (String.ofList_injective h)

end Blake3

/-! ### Identities -/

namespace ModelDecl

/-- The key and the version of a model. -/
def tag (model : ModelDecl) : String × Option String := (model.key, model.version)

/-- Whether the key and the version of a model can be read back: the key holds neither the mark
before a version nor the terminator, and the version does not hold the terminator. -/
structure Plain (model : ModelDecl) : Prop where
  key_at : '@' ∉ model.key.toList
  key_zero : '\x00' ∉ model.key.toList
  version_zero : ∀ version, model.version = some version → '\x00' ∉ version.toList

theorem toList_cacheIdentity (model : ModelDecl) : model.cacheIdentity.toList =
    model.key.toList ++ (model.version.map fun version => '@' :: version.toList).getD [] := by
  rw [cacheIdentity]
  cases model.version with
  | none => simp
  | some version => simp [String.toList_append]

theorem Plain.zero_notMem {model : ModelDecl} (h : model.Plain) :
    '\x00' ∉ model.cacheIdentity.toList := by
  rw [toList_cacheIdentity, List.mem_append]
  rintro (hkey | hversion)
  · exact h.key_zero hkey
  · cases hcase : model.version with
    | none => simp [hcase] at hversion
    | some version =>
      have hzero := h.version_zero version hcase
      simp [hcase, hzero] at hversion

/-- An identity tells the key and the version when the key holds no mark. -/
theorem cacheIdentity_eq_iff {model other : ModelDecl} (h : '@' ∉ model.key.toList)
    (hother : '@' ∉ other.key.toList) :
    model.cacheIdentity = other.cacheIdentity ↔ model.tag = other.tag := by
  rw [← String.toList_inj, toList_cacheIdentity, toList_cacheIdentity, tag, tag, Prod.mk.injEq]
  cases model.version with
  | none =>
    cases other.version with
    | none => simp [String.toList_inj]
    | some version =>
      simp only [Option.map_none, Option.getD_none, List.append_nil, Option.map_some,
        Option.getD_some, reduceCtorEq, and_false, iff_false]
      intro heq
      exact h (heq ▸ by simp)
  | some version =>
    cases other.version with
    | none =>
      simp only [Option.map_none, Option.getD_none, List.append_nil, Option.map_some,
        Option.getD_some, reduceCtorEq, and_false, iff_false]
      intro heq
      exact hother (heq ▸ by simp)
    | some latter =>
      simp only [Option.map_some, Option.getD_some, Option.some.injEq]
      rw [append_separator_inj h hother, String.toList_inj, String.toList_inj]

end ModelDecl

/-! ### Bytes -/

/-- The characters that identify a list of models. -/
def identityChars (models : List ModelDecl) : List Char :=
  models.flatMap fun model => model.cacheIdentity.toList ++ ['\x00']

theorem map_toNat_identityBytes (models : List ModelDecl) :
    (identityBytes models).map UInt8.toNat = Text.bytes (String.ofList (identityChars models)) := by
  rw [Text.bytes_eq_flatMap, String.toList_ofList, identityBytes, identityChars, List.map_flatMap,
    List.flatMap_assoc]
  refine List.flatMap_congr fun model _ => ?_
  rw [List.map_append, Text.map_toNat_toUTF8, Text.bytes_eq_flatMap, List.flatMap_append]
  rfl

/-- Two lists have the same bytes when their identities read the same, each with a zero character
behind it. -/
theorem identityBytes_eq_iff {models others : List ModelDecl} :
    identityBytes models = identityBytes others ↔ identityChars models = identityChars others := by
  constructor
  · intro h
    have hbytes := congrArg (List.map UInt8.toNat) h
    rw [map_toNat_identityBytes, map_toNat_identityBytes] at hbytes
    exact String.ofList_injective (Text.bytes_injective hbytes)
  · intro h
    apply List.map_injective_iff.2 fun _ _ => UInt8.toNat_inj.1
    rw [map_toNat_identityBytes, map_toNat_identityBytes, h]

/-- Identities can be read back from the bytes when none of them holds a zero character. -/
theorem identityBytes_eq_iff_of_zero_notMem {models others : List ModelDecl}
    (h : ∀ model ∈ models ++ others, '\x00' ∉ model.cacheIdentity.toList) :
    identityBytes models = identityBytes others ↔
      models.map ModelDecl.cacheIdentity = others.map ModelDecl.cacheIdentity := by
  rw [List.forall_mem_append] at h
  have htexts : ∀ list : List ModelDecl, list.map (fun model => model.cacheIdentity.toList) =
      (list.map ModelDecl.cacheIdentity).map String.toList := fun list => by
    rw [List.map_map]
    rfl
  rw [identityBytes_eq_iff]
  constructor
  · intro hchars
    have hmap := eq_of_flatMap_terminated h.1 h.2 hchars
    rw [htexts, htexts] at hmap
    exact List.map_injective_iff.2 (fun _ _ => String.toList_inj.1) hmap
  · intro hmap
    have hchars : ∀ list : List ModelDecl, identityChars list =
        (list.map ModelDecl.cacheIdentity).flatMap fun text => text.toList ++ ['\x00'] :=
      fun list => by
        rw [List.flatMap_map]
        rfl
    rw [hchars, hchars, hmap]

/-- What the bytes of two lists and their schema keys tell. The bytes are equal exactly when the
identities read the same, each with a zero character behind it. When no identity holds this
character they are equal exactly when the identities are, in order, and when all keys and versions
can be read back exactly when these are. Lists with one schema key have the same bytes, or their
bytes are a collision of the digest. -/
theorem schemaKey_tells (models others : List ModelDecl) :
    (identityBytes models = identityBytes others ↔ identityChars models = identityChars others) ∧
    ((∀ model ∈ models ++ others, '\x00' ∉ model.cacheIdentity.toList) →
      (identityBytes models = identityBytes others ↔
        models.map ModelDecl.cacheIdentity = others.map ModelDecl.cacheIdentity)) ∧
    ((∀ model ∈ models ++ others, model.Plain) →
      (identityBytes models = identityBytes others ↔
        models.map ModelDecl.tag = others.map ModelDecl.tag)) ∧
    (schemaKey models = schemaKey others → identityBytes models = identityBytes others ∨
      Blake3.Collide (identityBytes models) (identityBytes others)) := by
  refine ⟨identityBytes_eq_iff, identityBytes_eq_iff_of_zero_notMem, fun hplain => ?_,
    fun hkey => ?_⟩
  · rw [identityBytes_eq_iff_of_zero_notMem fun model hmodel => (hplain model hmodel).zero_notMem]
    rw [List.forall_mem_append] at hplain
    obtain ⟨hmodels, hothers⟩ := hplain
    apply map_eq_map_congr
    intro model hmodel other hother
    exact ModelDecl.cacheIdentity_eq_iff (hmodels model hmodel).key_at (hothers other hother).key_at
  · by_cases heq : identityBytes models = identityBytes others
    · exact .inl heq
    · have hhex := (String.append_right_inj _).1 hkey
      exact .inr ⟨heq, Blake3.digest_eq_of_hex_eq hhex⟩

/-- A model in its first version, and in its second one. -/
def ModelDecl.accounts (version : String) : ModelDecl where
  key := "accounts"
  name := "account"
  version := some version
  fields := [.scalar "email" .string]

theorem schemaKey_tells_accounts :
    let models : List ModelDecl := [.accounts "1"]
    let others : List ModelDecl := [.accounts "2"]
    (∀ model ∈ models ++ others, model.Plain) ∧ identityBytes models ≠ identityBytes others := by
  intro models others
  have hplain : ∀ model ∈ models ++ others, model.Plain := by
    simp only [models, others, List.cons_append, List.nil_append, List.forall_mem_cons]
    refine ⟨⟨by decide, by decide, ?_⟩, ⟨by decide, by decide, ?_⟩, ?_⟩
    · intro version hversion
      cases hversion
      decide
    · intro version hversion
      cases hversion
      decide
    · exact fun _ h => absurd h List.not_mem_nil
  refine ⟨hplain, fun heq => ?_⟩
  have htags := ((schemaKey_tells models others).2.2.1 hplain).1 heq
  exact absurd htags (by decide)

/-- A model with a key and perhaps a version, and nothing else. -/
def ModelDecl.tagged (key : String) (version : Option String) : ModelDecl where
  key := key
  name := "account"
  version := version

/-- A key with an `@` in it reads like another key with a version, and a key with a zero character
in it like two keys. -/
theorem identityBytes_clash :
    let apart (models others : List ModelDecl) : Prop :=
      models.map ModelDecl.tag ≠ others.map ModelDecl.tag ∧
        identityBytes models = identityBytes others
    apart [.tagged "users@2" none] [.tagged "users" (some "2")] ∧
      apart [.tagged "users\x00posts" none] [.tagged "users" none, .tagged "posts" none] := by
  refine ⟨⟨by decide, ?_⟩, by decide, ?_⟩
  · rw [identityBytes_eq_iff]
    decide
  · rw [identityBytes_eq_iff]
    decide

end ModelGraph
