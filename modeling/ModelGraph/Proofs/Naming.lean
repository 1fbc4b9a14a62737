import ModelGraph.Naming
import ModelGraph.Proofs.Text.Path

/-!
# Rewritten names

A rewritten name is never empty and only holds name characters, so it reads back from a path.

## Main statements

- `Naming.isSegment_sanitize` — a rewritten name reads back from a path
- `Naming.connectionType_eq_of_edgeType_eq` — different connections have different edges
- `Naming.enumType_ne_inputType`, `Naming.enumType_ne_connectionType`,
  `Naming.inputType_ne_connectionType` — enums, inputs and connections have different names
-/

namespace ModelGraph.Naming

theorem isNameChar_replace (c : Char) : isNameChar (if isNameChar c then c else '_') = true := by
  split
  · assumption
  · rfl

theorem isNameChar_of_mem_sanitize {name : String} {c : Char} (h : c ∈ (sanitize name).toList) :
    isNameChar c = true := by
  have hreplaced : ∀ d ∈ name.toList.map fun c => if isNameChar c then c else '_',
      isNameChar d = true := by
    intro d hd
    obtain ⟨c, -, rfl⟩ := List.mem_map.1 hd
    exact isNameChar_replace c
  rw [sanitize] at h
  cases hchars : name.toList.map fun c => if isNameChar c then c else '_' with
  | nil =>
    rw [hchars] at h
    rw [List.mem_singleton.1 h]
    rfl
  | cons d rest =>
    rw [hchars] at h hreplaced
    simp only [String.toList_ofList] at h
    split at h
    · rcases List.mem_cons.1 h with rfl | h
      · rfl
      · exact hreplaced c h
    · exact hreplaced c h

theorem sanitize_ne_empty (name : String) : sanitize name ≠ "" := by
  intro h
  have hnil : (sanitize name).toList = [] := by rw [h]; rfl
  rw [sanitize] at hnil
  split at hnil
  · cases hnil
  · rw [String.toList_ofList] at hnil
    split at hnil <;> cases hnil

/-- A rewritten name reads back from a path. -/
theorem isSegment_sanitize (name : String) : Path.IsSegment (sanitize name) :=
  ⟨sanitize_ne_empty name, fun h => absurd (isNameChar_of_mem_sanitize h) (by decide)⟩

theorem inputType_inj {object other : String} (h : inputType object = inputType other) :
    object = other :=
  (String.append_left_inj _).1 h

/-- Of some names, none is a longer one whose ending none of them has. -/
theorem append_notMem {names : List String} {ending : String}
    (h : ∀ name ∈ names, ¬ ending.toList <:+ name.toList) (base : String) :
    base ++ ending ∉ names :=
  fun hmem => h _ hmem ⟨base.toList, String.toList_append.symm⟩

/-- An edge tells which connection it belongs to. -/
theorem connectionType_eq_of_edgeType_eq {owner path other otherPath : String}
    (h : edgeType owner path = edgeType other otherPath) :
    connectionType owner path = connectionType other otherPath := by
  rw [connectionType, connectionType, (String.append_left_inj _).1 h]

/-! The names of enums, inputs, connections and edges end with different letters. -/

theorem getLast?_enumType (parent field : String) :
    (enumType parent field).toList.getLast? = some 'm' := by
  rw [enumType, String.toList_append, List.getLast?_append]
  rfl

theorem getLast?_inputType (object : String) :
    (inputType object).toList.getLast? = some 't' := by
  rw [inputType, String.toList_append, List.getLast?_append]
  rfl

theorem getLast?_connectionType (owner path : String) :
    (connectionType owner path).toList.getLast? = some 'n' := by
  rw [connectionType, String.toList_append, List.getLast?_append]
  rfl

theorem getLast?_edgeType (owner path : String) :
    (edgeType owner path).toList.getLast? = some 'e' := by
  rw [edgeType, String.toList_append, List.getLast?_append]
  rfl

theorem enumType_ne_inputType (parent field object : String) :
    enumType parent field ≠ inputType object := by
  intro h
  have hlast := congrArg (fun name => name.toList.getLast?) h
  simp [getLast?_enumType, getLast?_inputType] at hlast

theorem enumType_ne_connectionType (parent field owner path : String) :
    enumType parent field ≠ connectionType owner path := by
  intro h
  have hlast := congrArg (fun name => name.toList.getLast?) h
  simp [getLast?_enumType, getLast?_connectionType] at hlast

theorem inputType_ne_connectionType (object owner path : String) :
    inputType object ≠ connectionType owner path := by
  intro h
  have hlast := congrArg (fun name => name.toList.getLast?) h
  simp [getLast?_inputType, getLast?_connectionType] at hlast

theorem edgeType_ne_enumType (owner path parent field : String) :
    edgeType owner path ≠ enumType parent field := by
  intro h
  have hlast := congrArg (fun name => name.toList.getLast?) h
  simp [getLast?_edgeType, getLast?_enumType] at hlast

theorem edgeType_ne_inputType (owner path object : String) :
    edgeType owner path ≠ inputType object := by
  intro h
  have hlast := congrArg (fun name => name.toList.getLast?) h
  simp [getLast?_edgeType, getLast?_inputType] at hlast

theorem edgeType_ne_connectionType (owner path other otherPath : String) :
    edgeType owner path ≠ connectionType other otherPath := by
  intro h
  have hlast := congrArg (fun name => name.toList.getLast?) h
  simp [getLast?_edgeType, getLast?_connectionType] at hlast

end ModelGraph.Naming
