import ModelGraph.Text.Taken

/-!
# Escapes in quoted text

The characters that a backslash and one letter stand for, and the four hexadecimal digits of a
`\u` escape.

## Main definitions

- `escapeImage?` — what a backslash and a character stand for
- `takeHex4` — four hexadecimal digits
-/

namespace ModelGraph.Text

/-- The character that a backslash followed by `c` stands for. -/
def escapeImage? (c : Char) : Option Char :=
  match c with
  | '"' => some '"'
  | '\\' => some '\\'
  | '/' => some '/'
  | 'b' => some '\x08'
  | 'f' => some '\x0c'
  | 'n' => some '\n'
  | 'r' => some '\r'
  | 't' => some '\t'
  | _ => none

/-- Takes four hexadecimal digits. -/
def takeHex4 (s : List Char) : Option (Taken Nat s) :=
  match s with
  | a :: b :: c :: d :: rest =>
    (hexNumber? [a, b, c, d]).map fun n => ⟨n, rest, by simp only [List.length_cons]; omega⟩
  | _ => none

end ModelGraph.Text
