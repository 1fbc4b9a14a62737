import ModelGraph.Tree.Content
import ModelGraph.Yaml.Plain

/-!
# Writing YAML documents

Nested mappings of names to scalars in block style. A text is written plainly where it reads back as
the same text; between single quotes where it would read back as something else or as punctuation;
as a literal block where it has line ends; and between double quotes, with escapes, where it has
characters that cannot be written otherwise.

## Main definitions

- `Yaml.Style`, `Yaml.style` — the way a text is written
- `Yaml.Block` — scalars, texts and mappings
- `Yaml.render` — the written form of a mapping
-/

namespace ModelGraph.Yaml

/-! ### What stands in a text -/

/-- Whether a character can be written as it is. -/
def isPrintable (c : Char) : Bool :=
  let n := c.toNat
  n == 0x0A || (0x20 ≤ n && n ≤ 0x7E) || (0xA0 ≤ n && n ≤ 0xFFFD && n != 0xFEFF)

/-- Whether some character and the one after it satisfy `p`; the last one has none after it. -/
def anyPair (p : Char → Option Char → Bool) : List Char → Bool
  | [] => false
  | c :: rest => p c rest.head? || anyPair p rest

/-- Whether a space stands next to a line end. -/
def hasSpaceBeforeBreak (text : List Char) : Bool :=
  anyPair (fun c next => c == ' ' && next.any isBreak) text

/-- Whether a line starts with a space. -/
def hasSpaceAfterBreak (text : List Char) : Bool :=
  anyPair (fun c next => isBreak c && next == some ' ') text

/-- Whether a text starts or ends with a space or a line end. -/
def hasOuterSpace (text : List Char) : Bool :=
  let outer (c : Char) : Bool := c == ' ' || isBreak c
  text.head?.any outer || text.getLast?.any outer

/-- Characters that start something else than a plain scalar. -/
def isStartIndicator (c : Char) : Bool :=
  isFlowMark c || c == '#' || c == '&' || c == '*' || c == '!' || c == '|' || c == '>'
    || c == '\'' || c == '"' || c == '%' || c == '@' || c == '\x60'

/-- Whether a text starts with something else than a plain scalar. -/
def startsLikeOther (text : List Char) : Bool :=
  let isDocumentMark := text.take 3 == ['-', '-', '-'] || text.take 3 == ['.', '.', '.']
  match text with
  | [] => false
  | c :: rest =>
    isDocumentMark || isStartIndicator c
      || ((c == '?' || c == ':' || c == '-') && rest.head?.all isGap)

/-- Whether a plain scalar would end within a text. -/
def endsWithin (text : List Char) : Bool :=
  anyPair (fun c next => (c == ':' && next.all isGap) || (isGap c && next == some '#')) text

/-! ### Styles -/

/-- The ways to write a text. -/
inductive Style where
  | plain
  | single
  | double
  | literal
deriving DecidableEq, Repr

/-- Whether a plain scalar would read back as something else than a text. -/
def isTakenForOther (text : String) : Bool :=
  match ScalarText.plainContent text with
  | .text _ => hasLeadingZero text.toList
  | _ => true

/-- The way to write a text. -/
def style (text : String) : Style :=
  let chars := text.toList
  let quotable := chars.all isPrintable && !hasSpaceBeforeBreak chars
  if chars.contains '\n' then
    if quotable && chars.getLast? != some ' ' then .literal else .double
  else if !isTakenForOther text && quotable && !hasOuterSpace chars && !chars.any isBreak
      && !startsLikeOther chars && !endsWithin chars then
    .plain
  else if quotable && !hasSpaceAfterBreak chars then .single
  else .double

/-! ### Writing texts -/

/-- A hexadecimal digit in upper case. -/
def hexDigit (n : Nat) : Char := "0123456789ABCDEF".toList.getD n '0'

/-- The given number of hexadecimal digits. -/
def hexDigits : (count n : Nat) → List Char
  | 0, _ => []
  | count + 1, n => hexDigits count (n / 16) ++ [hexDigit (n % 16)]

/-- The escape of a character between double quotes. -/
def escape (c : Char) : List Char :=
  let n := c.toNat
  match c with
  | '\x00' => ['\\', '0']
  | '\x07' => ['\\', 'a']
  | '\x08' => ['\\', 'b']
  | '\t' => ['\\', 't']
  | '\n' => ['\\', 'n']
  | '\x0b' => ['\\', 'v']
  | '\x0c' => ['\\', 'f']
  | '\r' => ['\\', 'r']
  | '\x1b' => ['\\', 'e']
  | '"' => ['\\', '"']
  | '\\' => ['\\', '\\']
  | '\u0085' => ['\\', 'N']
  | '\u00a0' => ['\\', '_']
  | '\u2028' => ['\\', 'L']
  | '\u2029' => ['\\', 'P']
  | _ =>
    if n ≤ 0xFF then '\\' :: 'x' :: hexDigits 2 n
    else if n ≤ 0xFFFF then '\\' :: 'u' :: hexDigits 4 n
    else '\\' :: 'U' :: hexDigits 8 n

/-- A character between double quotes. -/
def doubleChar (c : Char) : List Char :=
  if isPrintable c && !isBreak c && c != '"' && c != '\\' then [c] else escape c

/-- A text between double quotes. -/
def doubleQuoted (text : String) : String :=
  String.ofList ('"' :: text.toList.flatMap doubleChar ++ ['"'])

/-- A text between single quotes. -/
def singleQuoted (text : String) : String :=
  let double (c : Char) : List Char := if c = '\'' then [c, c] else [c]
  String.ofList ('\'' :: text.toList.flatMap double ++ ['\''])

/-- The blanks in front of a line. -/
def indentation (indent : Nat) : List Char := List.replicate indent ' '

/-- The lines of a literal block. Empty lines are not indented. -/
def literalLines (indent : Nat) : (atStart : Bool) → List Char → List Char
  | _, [] => []
  | atStart, c :: rest =>
    if isBreak c then c :: literalLines indent true rest
    else (if atStart then indentation indent else []) ++ c :: literalLines indent false rest

/-- What follows the indicator of a literal block: how far it is indented, where its first line does
not show it, and which line ends stay. -/
def literalHints (text : List Char) : List Char :=
  let indent := if text.head?.any fun c => c == ' ' || isBreak c then ['2'] else []
  let chomping :=
    match text.reverse with
    | last :: before =>
      if !isBreak last then ['-'] else if before.head?.all isBreak then ['+'] else []
    | [] => ['-']
  indent ++ chomping

/-- Whether the line ends of a literal block go on to the end of the document. -/
def isOpenEnded (text : String) : Bool :=
  style text == .literal && (literalHints text.toList).contains '+'

/-- A text as a literal block, ended by a line end. -/
def literal (indent : Nat) (text : String) : String :=
  let lines := literalLines indent true text.toList
  let stop := if text.toList.getLast?.any isBreak then [] else ['\n']
  "|" ++ String.ofList (literalHints text.toList ++ '\n' :: lines ++ stop)

/-- A text as the value of an entry, ended by a line end. -/
def renderText (indent : Nat) (text : String) : String :=
  match style text with
  | .plain => text ++ "\n"
  | .single => singleQuoted text ++ "\n"
  | .double => doubleQuoted text ++ "\n"
  | .literal => literal indent text

/-! ### Documents -/

/-- What a document is written from. -/
inductive Block where
  | bool (value : Bool)
  | number (value : Nat)
  | text (value : String)
  | mapping (entries : List (String × Block))

namespace Block

mutual

/-- A value after the colon of its key, ended by a line end. -/
def renderValue (indent : Nat) : Block → String
  | .bool value => (if value then " true" else " false") ++ "\n"
  | .number value => " " ++ toString value ++ "\n"
  | .text value => " " ++ renderText (indent + 2) value
  | .mapping entries => if entries.isEmpty then " \x7b\x7d\n" else "\n" ++ renderEntries (indent + 2) entries

/-- The entries of a mapping, each on lines of its own. -/
def renderEntries (indent : Nat) : List (String × Block) → String
  | [] => ""
  | (key, value) :: rest =>
    String.ofList (indentation indent) ++ key ++ ":" ++ renderValue indent value
      ++ renderEntries indent rest

end

mutual

/-- Whether the last text of a value is open ended. -/
def isOpen : Block → Bool
  | .text value => isOpenEnded value
  | .mapping entries => areOpen entries
  | .bool _ | .number _ => false

/-- Whether the last text of the last entry is open ended. -/
def areOpen : List (String × Block) → Bool
  | [] => false
  | [(_, value)] => isOpen value
  | _ :: rest => areOpen rest

end

end Block

/-- The written form of a mapping with plain keys. An end mark follows a text that is open ended. -/
def render (entries : List (String × Block)) : String :=
  Block.renderEntries 0 entries ++ if Block.areOpen entries then "...\n" else ""

end ModelGraph.Yaml
