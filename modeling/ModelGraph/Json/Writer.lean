import ModelGraph.Json.Basic

/-!
# Writing JSON text

Compact text on one line, and indented text with two blanks a level, where empty containers stay on
one line. Strings escape the quote, the backslash and control characters, and nothing else.

## Main definitions

- `Json.compress` — compact text
- `Json.pretty` — indented text
-/

namespace ModelGraph.Json

/-- A hexadecimal digit in lower case. -/
def hexDigit (n : Nat) : Char := "0123456789abcdef".toList.getD n '0'

/-- The written form of one character of a string. -/
def escapeChar (c : Char) : List Char :=
  match c with
  | '"' => ['\\', '"']
  | '\\' => ['\\', '\\']
  | '\x08' => ['\\', 'b']
  | '\x0c' => ['\\', 'f']
  | '\n' => ['\\', 'n']
  | '\r' => ['\\', 'r']
  | '\t' => ['\\', 't']
  | c =>
    if c.toNat < 0x20 then
      ['\\', 'u', '0', '0', hexDigit (c.toNat / 16), hexDigit (c.toNat % 16)]
    else [c]

/-- The written form of a string, with quotes. -/
def quote (s : String) : String :=
  String.ofList ('"' :: s.toList.flatMap escapeChar ++ ['"'])

mutual

/-- The value on one line without blanks. -/
def compress : Json → String
  | .null => "null"
  | .bool true => "true"
  | .bool false => "false"
  | .number n => n.text
  | .string s => quote s
  | .array items => "[" ++ ",".intercalate (compressItems items) ++ "]"
  | .object members => "\x7b" ++ ",".intercalate (compressMembers members) ++ "\x7d"

/-- Each item on one line. -/
def compressItems : List Json → List String
  | [] => []
  | item :: rest => compress item :: compressItems rest

/-- Each member on one line. -/
def compressMembers : List (String × Json) → List String
  | [] => []
  | (name, value) :: rest => (quote name ++ ":" ++ compress value) :: compressMembers rest

end

/-- A line break followed by the blanks of a level. -/
def newline (level : Nat) : String :=
  String.ofList ('\n' :: List.replicate (2 * level) ' ')

mutual

/-- The value over several lines, with its own lines indented to `level`. -/
def prettyAt (level : Nat) : Json → String
  | .array (item :: items) =>
    let lines := prettyAt (level + 1) item :: prettyItems (level + 1) items
    let gap := newline (level + 1)
    "[" ++ gap ++ ("," ++ gap).intercalate lines ++ newline level ++ "]"
  | .object ((name, value) :: members) =>
    let lines := (quote name ++ ": " ++ prettyAt (level + 1) value)
      :: prettyMembers (level + 1) members
    let gap := newline (level + 1)
    "\x7b" ++ gap ++ ("," ++ gap).intercalate lines ++ newline level ++ "\x7d"
  | value => compress value

/-- Each item over several lines. -/
def prettyItems (level : Nat) : List Json → List String
  | [] => []
  | item :: rest => prettyAt level item :: prettyItems level rest

/-- Each member over several lines. -/
def prettyMembers (level : Nat) : List (String × Json) → List String
  | [] => []
  | (name, value) :: rest =>
    (quote name ++ ": " ++ prettyAt level value) :: prettyMembers level rest

end

/-- The value over several lines, two blanks a level. -/
def pretty (value : Json) : String := prettyAt 0 value

end ModelGraph.Json
