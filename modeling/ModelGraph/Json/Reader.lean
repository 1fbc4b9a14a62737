import ModelGraph.Json.Basic
import ModelGraph.Text.Escape
import ModelGraph.Text.Numeral

/-!
# Reading JSON text

A strict reader of one JSON value with blanks around it. Containers may nest 127 deep; of a name
given twice the first place and the last value remain; lone surrogates, raw control characters and
numbers past the largest finite one are refused.

## Main definitions

- `Json.parse?` — the value of a text
-/

namespace ModelGraph.Json

open Text

/-- Blanks between tokens. -/
def isBlank (c : Char) : Bool :=
  c == ' ' || c == '\t' || c == '\n' || c == '\r'

/-- The second half of a surrogate pair, escaped. -/
def takeTrailSurrogate (s : List Char) : Option (Taken Nat s) := do
  let ⟨_, rest, h⟩ ← takeText '\\' ['u'] s
  let trail ← takeHex4 rest
  if 0xDC00 ≤ trail.value ∧ trail.value ≤ 0xDFFF then pure (trail.after h) else none

/-- Takes the digits of an escape that names a character by its code. -/
def takeCodeEscape (s : List Char) : Option (Taken Char s) := do
  let ⟨lead, rest, h⟩ ← takeHex4 s
  if 0xD800 ≤ lead ∧ lead ≤ 0xDBFF then do
    let trail ← takeTrailSurrogate rest
    let image (trail : Nat) := Char.ofNat (0x10000 + (lead - 0xD800) * 1024 + (trail - 0xDC00))
    pure ((trail.map image).after h)
  else if 0xDC00 ≤ lead ∧ lead ≤ 0xDFFF then none
  else pure ⟨Char.ofNat lead, rest, h⟩

/-- Takes what follows a backslash. -/
def takeEscape (s : List Char) : Option (Taken Char s) :=
  match s with
  | [] => none
  | c :: rest =>
    if c = 'u' then (takeCodeEscape rest).map .afterHead else (escapeImage? c).map .head

/-- Takes a character of a string, which may be written as an escape. -/
def takeStringChar (s : List Char) : Option (Taken Char s) :=
  match s with
  | [] => none
  | c :: rest =>
    if c = '\\' then (takeEscape rest).map .afterHead
    else if c.toNat < 0x20 then none
    else some (.head c)

/-- Takes a quote. -/
def takeQuote (s : List Char) : Option (Taken Unit s) := takeText '"' [] s

/-- Takes the characters of a string and its closing quote. -/
def takeStringBody (s : List Char) : Option (Taken (List Char) s) :=
  takeParts takeQuote takeStringChar s

/-- Takes a string with its quotes. -/
def takeString (s : List Char) : Option (Taken String s) := do
  let ⟨_, rest, h⟩ ← takeQuote s
  let chars ← takeStringBody rest
  pure ((chars.map String.ofList).after h)

/-- Takes a number. A point or an exponent mark without digits after it is refused. -/
def takeNumber (s : List Char) : Option (Taken Number s) := do
  let ⟨(negative, whole), rest, h⟩ ← takeInteger s
  let (fraction, ⟨rest', h'⟩) : Option (List Nat) × Left rest ←
    if rest.head? = some '.' then do
      let digits ← takeFraction rest
      pure (some digits.value, digits.left)
    else pure (none, .all rest)
  let (exponent, last) : Option (Bool × List Nat) × Left rest' ←
    if rest'.head? = some 'e' ∨ rest'.head? = some 'E' then do
      let parts ← takeExponent rest'
      pure (some parts.value, parts.left)
    else pure (none, .all rest')
  let value ← Literal.value? ⟨negative, whole, fraction, exponent⟩
  pure ((last.after h').taking h value)

/-- Reads a token after blanks. -/
def token {α : Type} (read : (s : List Char) → Option (Taken α s)) (s : List Char) :
    Option (Taken α s) :=
  let ⟨t, ht⟩ := skipWhile isBlank s
  (read t).map (.afterSkip ht)

/-- Takes a punctuation mark. -/
def mark (c : Char) (s : List Char) : Option (Taken Char s) := token (takeChar c) s

mutual

/-- Takes a value after blanks; `depth` more containers may be opened. -/
def takeValue (depth : Nat) (s : List Char) : Option (Taken Json s) :=
  match skipWhile isBlank s with
  | ⟨[], _⟩ => none
  | ⟨c :: rest, ht⟩ =>
    have h : rest.length < s.length := ht
    if c = 'n' then
      (takeText 'u' "ll".toList rest).map fun word => (word.map fun _ => .null).after h
    else if c = 't' then
      (takeText 'r' "ue".toList rest).map fun word => (word.map fun _ => .bool true).after h
    else if c = 'f' then
      (takeText 'a' "lse".toList rest).map fun word => (word.map fun _ => .bool false).after h
    else if c = '"' then
      (takeStringBody rest).map fun chars =>
        (chars.map fun chars => .string (String.ofList chars)).after h
    else if c = '[' then
      match depth with
      | 0 => none
      | inner + 1 =>
        match mark ']' rest with
        | some close => some ((close.map fun _ => .array []).after h)
        | none => (takeItems inner rest).map fun items => (items.map Json.array).after h
    else if c = '\x7b' then
      match depth with
      | 0 => none
      | inner + 1 =>
        match mark '\x7d' rest with
        | some close => some ((close.map fun _ => .object []).after h)
        | none => (takeMembers inner rest).map fun members => (members.map ofMembers).after h
    else (takeNumber (c :: rest)).map fun n => (n.map Json.number).afterSkip ht
termination_by (s.length, 0)

/-- Takes one item or more, with commas between, and the closing bracket. -/
def takeItems (depth : Nat) (s : List Char) : Option (Taken (List Json) s) := do
  let ⟨item, rest, h⟩ ← takeValue depth s
  match mark ',' rest with
  | some ⟨_, rest', h'⟩ =>
    let items ← takeItems depth rest'
    pure (((items.map (item :: ·)).after h').after h)
  | none =>
    let close ← mark ']' rest
    pure ((close.map fun _ => [item]).after h)
termination_by (s.length, 1)

/-- Takes one member or more, with commas between, and the closing brace. -/
def takeMembers (depth : Nat) (s : List Char) : Option (Taken (List (String × Json)) s) := do
  let ⟨name, rest, h⟩ ← token takeString s
  let ⟨_, rest', h'⟩ ← mark ':' rest
  let ⟨value, rest'', h''⟩ ← takeValue depth rest'
  match mark ',' rest'' with
  | some ⟨_, rest₃, h₃⟩ =>
    let members ← takeMembers depth rest₃
    pure (((((members.map ((name, value) :: ·)).after h₃).after h'').after h').after h)
  | none =>
    let close ← mark '\x7d' rest''
    pure ((((close.map fun _ => [(name, value)]).after h'').after h').after h)
termination_by (s.length, 1)

end

/-- How deep containers may nest. -/
def maxDepth : Nat := 127

/-- The value that a text writes, with nothing but blanks around it. -/
def parse? (text : String) : Option Json := do
  let ⟨value, rest, _⟩ ← takeValue maxDepth text.toList
  if rest.all isBlank then some value else none

end ModelGraph.Json
