import ModelGraph.Proofs.Naming

/-!
# Valid names

A valid name is a letter or an underscore followed by letters, digits and underscores, all of them
ASCII. Rewriting makes a valid name of any text and leaves valid names alone. The first letter of a
valid name changes its case within ASCII, whatever case mappings do beyond, so the names that are
composed for types are valid again.

## Main definitions

- `Naming.IsName` — valid names

## Main statements

- `Naming.isName_sanitize`, `Naming.sanitize_eq_self_iff` — rewriting makes valid names and leaves
  just these alone
- `Naming.IsName.nestedType`, `Naming.isName_embeddedType`, `Naming.IsName.connectionType` — composed
  names are valid
-/

namespace ModelGraph.Naming

open Text

/-- Whether a character may open a name. -/
def isNameStart (c : Char) : Bool :=
  c == '_' || c.isAlpha

/-- A valid name: `[_A-Za-z][_0-9A-Za-z]*`. -/
def IsName (name : String) : Prop :=
  ∃ first rest, name.toList = first :: rest ∧ isNameStart first = true ∧
    ∀ c ∈ rest, isNameChar c = true

theorem isNameChar_of_isNameStart {c : Char} (h : isNameStart c = true) : isNameChar c = true := by
  rw [isNameStart, Bool.or_eq_true] at h
  rw [isNameChar, Bool.or_eq_true, Bool.or_eq_true]
  exact h.imp_left .inl

/-- A character of a name that is no digit may open one. -/
theorem isNameStart_of_not_isDigit {c : Char} (h : isNameChar c = true) (hdigit : ¬ c.isDigit = true) :
    isNameStart c = true := by
  rw [isNameChar, Bool.or_eq_true, Bool.or_eq_true] at h
  rw [isNameStart, Bool.or_eq_true]
  exact h.imp_left fun h => h.resolve_right hdigit

theorem IsName.isNameChar {name : String} (h : IsName name) :
    ∀ c ∈ name.toList, isNameChar c = true := by
  obtain ⟨first, rest, hchars, hfirst, hrest⟩ := h
  rw [hchars]
  exact List.forall_mem_cons.2 ⟨isNameChar_of_isNameStart hfirst, hrest⟩

theorem toNat_lt_of_isNameStart {c : Char} (h : isNameStart c = true) : c.toNat < 128 := by
  rw [isNameStart, Bool.or_eq_true, beq_iff_eq] at h
  rcases h with rfl | h
  · decide
  · change (decide (65 ≤ c.val ∧ c.val ≤ 90) ||
      (decide (97 ≤ c.val) && decide (c.val ≤ 122))) = true at h
    simp only [Bool.or_eq_true, Bool.and_eq_true, decide_eq_true_eq, UInt32.le_iff_toNat_le] at h
    change (65 ≤ c.toNat ∧ c.toNat ≤ 90) ∨ (97 ≤ c.toNat ∧ c.toNat ≤ 122) at h
    omega

/-- What holds of those among the characters of ASCII holds of all characters that open names. -/
theorem of_isNameStart {P : Char → Prop}
    (h : ∀ n < 128, isNameStart (Char.ofNat n) = true → P (Char.ofNat n)) {c : Char}
    (hc : isNameStart c = true) : P c := by
  have hcode := h c.toNat (toNat_lt_of_isNameStart hc)
  rw [Char.ofNat_toNat] at hcode
  exact hcode hc

theorem not_isDigit_of_isNameStart {c : Char} (h : isNameStart c = true) : ¬ c.isDigit = true :=
  of_isNameStart (P := fun c => ¬ c.isDigit = true) (by decide +kernel) h

theorem isNameStart_toUpper {c : Char} (h : isNameStart c = true) : isNameStart c.toUpper = true :=
  of_isNameStart (P := fun c => isNameStart c.toUpper = true) (by decide +kernel) h

theorem isNameStart_toLower {c : Char} (h : isNameStart c = true) : isNameStart c.toLower = true :=
  of_isNameStart (P := fun c => isNameStart c.toLower = true) (by decide +kernel) h

/-! ### Rewriting -/

/-- Rewriting makes a valid name of any text. -/
theorem isName_sanitize (text : String) : IsName (sanitize text) := by
  have hchars : ∀ c ∈ (sanitize text).toList, isNameChar c = true :=
    fun c => isNameChar_of_mem_sanitize
  rw [sanitize] at hchars ⊢
  cases hmap : text.toList.map fun c => if isNameChar c then c else '_' with
  | nil => exact ⟨'_', [], rfl, rfl, fun _ h => absurd h List.not_mem_nil⟩
  | cons first rest =>
    rw [hmap] at hchars
    simp only [String.toList_ofList] at hchars
    split at hchars
    · next hdigit =>
      refine ⟨'_', first :: rest, ?_, rfl, (List.forall_mem_cons.1 hchars).2⟩
      rw [String.toList_ofList, if_pos hdigit]
    · next hdigit =>
      obtain ⟨hfirst, hrest⟩ := List.forall_mem_cons.1 hchars
      refine ⟨first, rest, ?_, isNameStart_of_not_isDigit hfirst hdigit, hrest⟩
      rw [String.toList_ofList, if_neg hdigit]

/-- Rewriting leaves just the valid names alone. -/
theorem sanitize_eq_self_iff {text : String} : sanitize text = text ↔ IsName text := by
  refine ⟨fun h => h ▸ isName_sanitize text, fun h => ?_⟩
  have hmap : (text.toList.map fun c => if isNameChar c then c else '_') = text.toList := by
    refine (List.map_congr_left fun c hc => ?_).trans (List.map_id _)
    exact if_pos (h.isNameChar c hc)
  obtain ⟨first, rest, hchars, hfirst, -⟩ := h
  rw [sanitize, hmap, hchars]
  dsimp only
  rw [if_neg (not_isDigit_of_isNameStart hfirst), ← hchars, String.ofList_toList]

theorem sanitize_sanitize (text : String) : sanitize (sanitize text) = sanitize text :=
  sanitize_eq_self_iff.2 (isName_sanitize text)

instance : DecidablePred IsName := fun _ => decidable_of_iff _ sanitize_eq_self_iff

/-! ### Composed names -/

namespace IsName

variable {name : String} (h : IsName name)

include h

theorem upperFirst : IsName (upperFirst name) := by
  obtain ⟨first, rest, hchars, hfirst, hrest⟩ := h
  refine ⟨first.toUpper, rest, ?_, isNameStart_toUpper hfirst, hrest⟩
  have hupper : upperChar first = [first.toUpper] := if_pos (toNat_lt_of_isNameStart hfirst)
  rw [Text.upperFirst, hchars]
  dsimp only
  rw [hupper, String.toList_ofList, List.singleton_append]

theorem lowerFirst : IsName (lowerFirst name) := by
  obtain ⟨first, rest, hchars, hfirst, hrest⟩ := h
  refine ⟨first.toLower, rest, ?_, isNameStart_toLower hfirst, hrest⟩
  have hlower : lowerChar first = [first.toLower] := if_pos (toNat_lt_of_isNameStart hfirst)
  rw [Text.lowerFirst, hchars]
  dsimp only
  rw [hlower, String.toList_ofList, List.singleton_append]

/-- A name stays valid with more characters of names behind it. -/
theorem append {ending : String} (hending : ending.toList.all Naming.isNameChar = true) :
    IsName (name ++ ending) := by
  obtain ⟨first, rest, hchars, hfirst, hrest⟩ := h
  refine ⟨first, rest ++ ending.toList, ?_, hfirst,
    List.forall_mem_append.2 ⟨hrest, List.all_eq_true.1 hending⟩⟩
  rw [String.toList_append, hchars, List.cons_append]

theorem nestedType (field : String) : IsName (nestedType name field) :=
  h.append (List.all_eq_true.2 (isName_sanitize field).upperFirst.isNameChar)

theorem enumType (field : String) : IsName (enumType name field) :=
  (h.nestedType field).append rfl

theorem inputType : IsName (inputType name) := h.append rfl

theorem pathType (path : String) : IsName (pathType name path) := by
  rw [Naming.pathType]
  induction Path.segments path generalizing name with
  | nil => exact h
  | cons segment rest ih => exact ih (h.nestedType segment)

theorem connectionType (path : String) : IsName (connectionType name path) :=
  (h.pathType path).append rfl

theorem edgeType (path : String) : IsName (edgeType name path) :=
  (h.pathType path).append rfl

end IsName

theorem isName_embeddedType (model : String) : IsName (embeddedType model) :=
  (isName_sanitize model).upperFirst

example : IsName (connectionType "User" "1st.ß..ŉ") ∧
    connectionType "User" "1st.ß..ŉ" = "User_1st___Connection" ∧ ¬ IsName "1st" := by decide

end ModelGraph.Naming
