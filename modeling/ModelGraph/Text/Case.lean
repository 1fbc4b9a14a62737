import ModelGraph.Text.CaseTable

/-!
# Upper and lower case

Case mappings of whole characters and texts. One character can map to several, and a text maps
character by character.

## Main definitions

- `Text.upperChar`, `Text.lowerChar` — the image of one character
- `Text.upper`, `Text.lower` — the image of a text
- `Text.upperFirst`, `Text.lowerFirst` — only the first character changes
-/

namespace ModelGraph.Text

/-- The image of a character under a case mapping: ASCII by `ascii`, the rest by table. -/
def mapChar (ascii : Char → Char) (runs : List CaseRun) (expansions : List (Nat × List Nat))
    (c : Char) : List Char :=
  if c.toNat < 128 then [ascii c]
  else
    match expansions.find? fun entry => entry.1 = c.toNat with
    | some entry => entry.2.map Char.ofNat
    | none =>
      match runs.find? fun run => run.covers c.toNat with
      | some run => [Char.ofNat ((c.toNat : Int) + run.offset).toNat]
      | none => [c]

/-- The upper case of a character. -/
def upperChar (c : Char) : List Char := mapChar Char.toUpper upperRuns upperExpansions c

/-- The lower case of a character. -/
def lowerChar (c : Char) : List Char := mapChar Char.toLower lowerRuns lowerExpansions c

/-- The upper case of a text. -/
def upper (s : String) : String := String.ofList (s.toList.flatMap upperChar)

/-- The lower case of a text. Characters map one by one: a sigma has no special form at the end
of a word. -/
def lower (s : String) : String := String.ofList (s.toList.flatMap lowerChar)

/-- The text with its first character in upper case. -/
def upperFirst (s : String) : String :=
  match s.toList with
  | [] => ""
  | c :: rest => String.ofList (upperChar c ++ rest)

/-- The text with its first character in lower case. -/
def lowerFirst (s : String) : String :=
  match s.toList with
  | [] => ""
  | c :: rest => String.ofList (lowerChar c ++ rest)

end ModelGraph.Text
