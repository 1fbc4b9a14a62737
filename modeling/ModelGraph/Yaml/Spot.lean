import ModelGraph.Text.Taken

/-!
# Characters with their places

YAML gives meaning to columns and lines, so a document is read as a list of characters that know
their places. All line ends are one character here: a carriage return, with or without a line feed,
and a next-line character read as a line feed; the two Unicode separators stay what they are.

## Main definitions

- `Yaml.Spot` — a character with its place
- `Yaml.spots?` — the characters of a text, unless one of them may not stand in a document
- `Yaml.gapText` — what blanks and line breaks inside a scalar amount to
-/

namespace ModelGraph.Yaml

open Text

/-- A character with its place. -/
structure Spot where
  char : Char
  /-- The number of characters before it. -/
  index : Nat
  line : Nat
  column : Nat
deriving Repr

/-- Whether a character may stand in a document. -/
def isAllowed (c : Char) : Bool :=
  let n := c.toNat
  c == '\t' || c == '\n' || c == '\r' || (0x20 ≤ n && n ≤ 0x7E) || n == 0x85
    || (0xA0 ≤ n && n ≤ 0xFFFD) || 0x10000 ≤ n

/-- Whether a character ends a line, after line ends have been made one character. -/
def isBreak (c : Char) : Bool := c == '\n' || c == '\u2028' || c == '\u2029'

/-- A space or a tab. -/
def isBlank (c : Char) : Bool := c == ' ' || c == '\t'

/-- Whether a character separates words. -/
def isGap (c : Char) : Bool := isBlank c || isBreak c

/-- The characters of a text from a place on. -/
def spotsFrom (index line column : Nat) : List Char → List Spot
  | [] => []
  | '\r' :: '\n' :: rest => ⟨'\n', index, line, column⟩ :: spotsFrom (index + 2) (line + 1) 0 rest
  | c :: rest =>
    if c = '\r' ∨ c = '\n' ∨ c = '\u0085' then
      ⟨'\n', index, line, column⟩ :: spotsFrom (index + 1) (line + 1) 0 rest
    else if isBreak c then ⟨c, index, line, column⟩ :: spotsFrom (index + 1) (line + 1) 0 rest
    else ⟨c, index, line, column⟩ :: spotsFrom (index + 1) line (column + 1) rest

/-- The characters of a text, when all of them may stand in a document. -/
def spots? (text : String) : Option (List Spot) :=
  if text.toList.all isAllowed then some (spotsFrom 0 0 0 text.toList) else none

/-- Whether the text starts with a character that satisfies `p`. -/
def startsWith (p : Char → Bool) : List Spot → Bool
  | [] => false
  | c :: _ => p c.char

/-- Whether the text is at its end, or starts with a blank or a line end. -/
def atGap : List Spot → Bool
  | [] => true
  | c :: _ => isGap c.char

/-- Whether the text is at its end or at the end of a line. -/
def atLineEnd : List Spot → Bool
  | [] => true
  | c :: _ => isBreak c.char

/-- Skips blanks. -/
def skipBlanks (s : List Spot) : Left s := skipWhile (fun c => isBlank c.char) s

/-- Skips a comment up to the end of its line, if there is one. -/
def skipComment (s : List Spot) : Left s :=
  if startsWith (· == '#') s then skipWhile (fun c => !isBreak c.char) s else ⟨s, Nat.le_refl _⟩

/-- Skips blanks, a comment and the line end; nothing else may stand in the line. -/
def skipLine (s : List Spot) : Option (Left s) :=
  let ⟨rest, h⟩ := skipBlanks s
  let ⟨line, hline⟩ := skipComment rest
  if atLineEnd line then some ⟨line.drop 1, by simp only [List.length_drop]; omega⟩ else none

/-- Whether a line starts here with the given character three times and nothing after it. -/
def marks (c : Char) : List Spot → Bool
  | a :: b :: d :: rest =>
    a.column == 0 && a.char == c && b.char == c && d.char == c && atGap rest
  | _ => false

/-- Whether a line starts here that separates documents. -/
def atDocumentMark (s : List Spot) : Bool := marks '-' s || marks '.' s

/-- What line breaks amount to: a single line feed is a space, more lose the first one. -/
def foldBreaks : List Char → List Char
  | [] => []
  | ['\n'] => [' ']
  | '\n' :: others => others
  | breaks => breaks

/-- What blanks and line breaks inside a scalar amount to. Blanks count only within a line. -/
def gapText (gap : List Spot) : List Char :=
  let breaks := (gap.map Spot.char).filter isBreak
  if breaks.isEmpty then gap.map Spot.char else foldBreaks breaks

end ModelGraph.Yaml
