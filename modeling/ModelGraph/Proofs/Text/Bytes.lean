import Mathlib.Data.Char
import Mathlib.Data.List.Lex
import Mathlib.Order.Monotone.Basic

/-!
# Texts in the order of their bytes

Comparing two texts character by character gives the same order as comparing their UTF-8 encodings
byte by byte: the encodings of two characters differ at a byte which both of them have, and the byte
of the smaller character is the smaller one.

## Main definitions

- `Text.bytes` — the bytes of a text's encoding

## Main statements

- `Text.bytes_lt_bytes_iff` — the order of the bytes is that of the characters
- `Text.bytes_injective` — a text can be read back from its bytes
-/

namespace ModelGraph

namespace Text

/-- The bytes of a character's encoding. -/
def charBytes (c : Char) : List ℕ := (String.utf8EncodeChar c).map UInt8.toNat

/-- The bytes of a text's encoding. -/
def bytes (text : String) : List ℕ := text.toUTF8.data.toList.map UInt8.toNat

/-- Reading bytes off one by one gives the list that holds them. -/
theorem loop_eq_append_drop (array : ByteArray) (index : ℕ) (read : List UInt8) :
    ByteArray.toList.loop array index read = read.reverse ++ array.data.toList.drop index := by
  fun_induction ByteArray.toList.loop array index read with
  | case1 index read hlt ih =>
    have hindex : index < array.data.toList.length := by simpa using hlt
    have hbyte : array.get! index = array.data.toList[index] := by
      rw [ByteArray.get!, Array.getElem_toList]
      exact getElem!_pos array.data index (by simpa using hlt)
    rw [ih, List.drop_eq_getElem_cons hindex, hbyte, List.reverse_cons, List.append_assoc,
      List.singleton_append]
  | case2 index read hge =>
    have hindex : array.data.toList.length ≤ index := by simpa using hge
    rw [List.drop_eq_nil_of_le hindex, List.append_nil]

theorem map_toNat_toUTF8 (text : String) : text.toUTF8.toList.map UInt8.toNat = bytes text := by
  rw [bytes, ByteArray.toList, loop_eq_append_drop]
  rfl

theorem bytes_eq_flatMap (text : String) : bytes text = text.toList.flatMap charBytes := by
  rw [bytes, String.toUTF8, ← String.utf8Encode_toList, List.utf8Encode, List.data_toByteArray,
    List.map_flatMap]
  rfl

theorem charBytes_eq (c : Char) : charBytes c =
    if c.toNat ≤ 127 then [c.toNat]
    else if c.toNat ≤ 2047 then [c.toNat / 64 % 32 + 192, c.toNat % 64 + 128]
    else if c.toNat ≤ 65535 then
      [c.toNat / 4096 % 16 + 224, c.toNat / 64 % 64 + 128, c.toNat % 64 + 128]
    else [c.toNat / 262144 % 8 + 240, c.toNat / 4096 % 64 + 128, c.toNat / 64 % 64 + 128,
      c.toNat % 64 + 128] := by
  have hval : c.val.toNat = c.toNat := rfl
  simp only [charBytes, String.utf8EncodeChar, hval]
  split_ifs <;> simp <;> omega

theorem charBytes_ne_nil (c : Char) : charBytes c ≠ [] := by
  rw [charBytes_eq]
  split_ifs <;> simp

/-- The encoding of a smaller character is smaller, whatever follows. -/
theorem charBytes_append_lt {c d : Char} (h : c < d) (xs ys : List ℕ) :
    charBytes c ++ xs < charBytes d ++ ys := by
  have hlt : c.toNat < d.toNat := h
  have hd : d.toNat < 1114112 := by
    rcases d.valid with hd | ⟨-, hd⟩
    · exact Nat.lt_trans hd (by decide)
    · exact hd
  -- Each digit to base 64 is what is left after the one before.
  have hdigits : ∀ n : ℕ, n / 64 / 64 = n / 4096 ∧ n / 4096 / 64 = n / 262144 :=
    fun n => ⟨Nat.div_div_eq_div_mul n 64 64, Nat.div_div_eq_div_mul n 4096 64⟩
  obtain ⟨hc₁, hc₂⟩ := hdigits c.toNat
  obtain ⟨hd₁, hd₂⟩ := hdigits d.toNat
  have hc₃ : c.toNat / 262144 % 8 = c.toNat / 262144 := by omega
  have hd₃ : d.toNat / 262144 % 8 = d.toNat / 262144 := by omega
  rw [charBytes_eq, charBytes_eq]
  split_ifs <;> simp only [List.cons_append, List.nil_append, List.cons_lt_cons_iff] <;> omega

theorem flatMap_charBytes_lt {xs ys : List Char} (h : xs < ys) :
    xs.flatMap charBytes < ys.flatMap charBytes := by
  induction xs generalizing ys with
  | nil =>
    cases ys with
    | nil => exact absurd h (lt_irrefl _)
    | cons d ys =>
      rw [List.flatMap_cons]
      cases hbytes : charBytes d with
      | nil => exact absurd hbytes (charBytes_ne_nil d)
      | cons first others => exact List.nil_lt_cons ..
  | cons c xs ih =>
    cases ys with
    | nil => exact absurd h (List.not_lt_nil _)
    | cons d ys =>
      rw [List.flatMap_cons, List.flatMap_cons]
      rcases List.cons_lt_cons_iff.1 h with hlt | ⟨rfl, hlt⟩
      · exact charBytes_append_lt hlt _ _
      · exact List.append_left_lt (ih hlt)

theorem bytes_lt_bytes_iff {a b : String} : bytes a < bytes b ↔ a.toList < b.toList := by
  have hmono : StrictMono (List.flatMap charBytes) := fun _ _ => flatMap_charBytes_lt
  rw [bytes_eq_flatMap, bytes_eq_flatMap]
  exact hmono.lt_iff_lt

theorem bytes_injective : Function.Injective bytes := by
  intro a b h
  rcases lt_trichotomy a.toList b.toList with hlt | heq | hgt
  · exact absurd (bytes_lt_bytes_iff.2 hlt) (h ▸ lt_irrefl _)
  · exact String.toList_inj.1 heq
  · exact absurd (bytes_lt_bytes_iff.2 hgt) (h ▸ lt_irrefl _)

end Text

end ModelGraph
