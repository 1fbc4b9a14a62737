import ModelGraph.Yaml.Spot

/-!
# Plain scalars

Scalars without quotes. Such a scalar ends before a comment, before a colon that separates, before
the punctuation of a flow collection that it stands in, and where a line is indented less than the
scalar has to be.

## Main definitions

- `Yaml.takePlain` — takes a plain scalar
-/

namespace ModelGraph.Yaml

open Text

/-- Punctuation of flow collections. -/
def isFlowMark (c : Char) : Bool :=
  c == ',' || c == '[' || c == ']' || c == '\x7b' || c == '\x7d'

/-- Whether a colon here may not be told apart from punctuation of a flow collection. -/
def isStrayColon (c : Spot) (rest : List Spot) : Bool :=
  c.char == ':' && startsWith (fun next => isFlowMark next || next == '?') rest

/-- Whether a character of a plain scalar would be punctuation here. -/
def endsPlain (flow : Bool) (c : Spot) (rest : List Spot) : Bool :=
  isGap c.char || (c.char == ':' && atGap rest) || (flow && isFlowMark c.char)

/-- The characters of a plain scalar up to a gap or its end, and the rest. No result for a stray
colon in a flow collection. -/
def plainWord (flow : Bool) : (s : List Spot) → Option (List Char × Left s)
  | [] => some ([], ⟨[], Nat.le_refl _⟩)
  | c :: rest =>
    if isGap c.char then some ([], ⟨c :: rest, Nat.le_refl _⟩)
    else if flow && isStrayColon c rest then none
    else if endsPlain flow c rest then some ([], ⟨c :: rest, Nat.le_refl _⟩)
    else do
      let (word, ⟨rest', h⟩) ← plainWord flow rest
      pure (c.char :: word, ⟨rest', by simp only [List.length_cons]; omega⟩)

/-- A plain scalar as far as it is read. -/
structure Plain where
  text : List Char
  /-- Whether a line end follows that is not part of the scalar. -/
  broken : Bool

/-- Whether the characters between two words have a tab where a line has to be indented. -/
def tabIndents (indent : Int) (gap : List Spot) : Bool :=
  (gap.dropWhile fun c => isBlank c.char).any fun c => c.char == '\t' && (c.column : Int) < indent

/-- Whether a line is indented less than it has to be. -/
def isOutside (indent : Int) : List Spot → Bool
  | [] => false
  | c :: _ => (c.column : Int) < indent

/-- Takes the words of a plain scalar that follow a gap. Outside flow collections lines have to be
indented. -/
def plainWords (flow : Bool) (indent : Int) (gap : List Spot) (s : List Spot) :
    Option (Plain × Left s) :=
  let broken := gap.any fun c => isBreak c.char
  if atDocumentMark s || startsWith (· == '#') s then some (⟨[], broken⟩, ⟨s, Nat.le_refl _⟩)
  else
    match plainWord flow s with
    | none => none
    | some (word, ⟨rest, h⟩) =>
      if hshort : rest.length < s.length then
        let text := gapText gap ++ word
        let next := rest.takeWhile fun c => isGap c.char
        let ⟨rest', h'⟩ := skipWhile (fun c : Spot => isGap c.char) rest
        if tabIndents indent next then none
        else if next.isEmpty then some (⟨text, false⟩, ⟨rest, h⟩)
        else if !flow && isOutside indent rest' then
          some (⟨text, next.any fun c => isBreak c.char⟩, ⟨rest', by omega⟩)
        else do
          let (others, ⟨rest'', h''⟩) ← plainWords flow indent next rest'
          pure (⟨text ++ others.text, others.broken⟩, ⟨rest'', by omega⟩)
      else some (⟨[], broken⟩, ⟨s, Nat.le_refl _⟩)
termination_by s.length

/-- Takes a plain scalar, whose lines have to be indented by `indent` outside flow collections. -/
def takePlain (flow : Bool) (indent : Int) (s : List Spot) : Option (Taken Plain s) := do
  let (plain, ⟨rest, _⟩) ← plainWords flow indent [] s
  if h : rest.length < s.length then pure ⟨plain, rest, h⟩ else none

end ModelGraph.Yaml
