import ModelGraph.Yaml.Spot

/-!
# Quoted scalars

Scalars in single quotes, where a quote is written twice, and scalars in double quotes, which know
escapes. Line ends in either are folded.

## Main definitions

- `Yaml.escapeImage?` — what a backslash and a character stand for
- `Yaml.takeQuoted` — takes a quoted scalar
-/

namespace ModelGraph.Yaml

open Text

/-- The character that a backslash followed by `c` stands for. -/
def escapeImage? (c : Char) : Option Char :=
  match c with
  | '0' => some '\x00'
  | 'a' => some '\x07'
  | 'b' => some '\x08'
  | 't' | '\t' => some '\t'
  | 'n' => some '\n'
  | 'v' => some '\x0b'
  | 'f' => some '\x0c'
  | 'r' => some '\r'
  | 'e' => some '\x1b'
  | ' ' => some ' '
  | '"' => some '"'
  | '/' => some '/'
  | '\\' => some '\\'
  | 'N' => some '\u0085'
  | '_' => some '\u00a0'
  | 'L' => some '\u2028'
  | 'P' => some '\u2029'
  | _ => none

/-- The number of hexadecimal digits that a backslash and a character announce. -/
def escapeDigits? (c : Char) : Option Nat :=
  match c with
  | 'x' => some 2
  | 'u' => some 4
  | 'U' => some 8
  | _ => none

/-- Takes what follows a backslash. -/
def takeEscape (s : List Spot) : Option (Taken Char s) :=
  match s with
  | [] => none
  | c :: rest =>
    match escapeImage? c.char, escapeDigits? c.char with
    | some image, _ => some ⟨image, rest, by simp⟩
    | none, some count =>
      let digits := (rest.take count).map Spot.char
      match hexNumber? digits with
      | some n =>
        if digits.length = count ∧ n.isValidChar then
          some ⟨Char.ofNat n, rest.drop count, by
            simp only [List.length_drop, List.length_cons]; omega⟩
        else none
      | none => none
    | none, none => none

/-- Takes the characters of a quoted scalar and its closing quote. -/
def takeQuoted (single : Bool) (s : List Spot) : Option (Taken (List Char) s) :=
  if atDocumentMark s then none
  else
    match s with
    | [] => none
    | c :: rest =>
      if c.char = (if single then '\'' else '"') then
        if single && startsWith (· == '\'') rest then
          let ⟨rest', h'⟩ := Left.skip 1 rest
          (takeQuoted single rest').map fun text =>
            ((text.map ('\'' :: ·)).afterSkip h').afterHead
        else some (.head [])
      else if !single && c.char == '\\' then
        if startsWith isBreak rest then
          let ⟨line, hline⟩ := Left.skip 1 rest
          let gap := line.takeWhile fun c => isGap c.char
          let ⟨rest', h'⟩ := skipWhile (fun c : Spot => isGap c.char) line
          (takeQuoted single rest').map fun text =>
            (((text.map ((gap.map Spot.char).filter isBreak ++ ·)).afterSkip h').afterSkip
              hline).afterHead
        else do
          let ⟨image, rest', h'⟩ ← takeEscape rest
          (takeQuoted single rest').map fun text => ((text.map (image :: ·)).after h').afterHead
      else if isGap c.char then
        let gap := c :: rest.takeWhile fun c => isGap c.char
        let ⟨rest', h'⟩ := skipWhile (fun c : Spot => isGap c.char) rest
        (takeQuoted single rest').map fun text =>
          ((text.map (gapText gap ++ ·)).afterSkip h').afterHead
      else (takeQuoted single rest).map fun text => (text.map (c.char :: ·)).afterHead
termination_by s.length
decreasing_by all_goals (simp_wf <;> omega)

end ModelGraph.Yaml
