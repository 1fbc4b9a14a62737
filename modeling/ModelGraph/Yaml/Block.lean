import ModelGraph.Yaml.Spot

/-!
# Block scalars

Scalars that are indented lines: literal ones keep their line ends, folded ones join lines that do
not start with a blank. A header says how far the lines are indented, unless the first line shows
it, and which line ends stay at the end.

## Main definitions

- `Yaml.BlockHeader` — indentation and chomping
- `Yaml.takeBlock` — takes a block scalar
-/

namespace ModelGraph.Yaml

open Text

/-- Which line ends stay at the end of a block scalar. -/
inductive Chomping where
  /-- None. -/
  | strip
  /-- The one after the last line. -/
  | clip
  /-- All of them. -/
  | keep
deriving DecidableEq, Repr

/-- What follows the indicator of a block scalar. -/
structure BlockHeader where
  chomping : Chomping := .clip
  /-- How much further than its parent the scalar is indented. -/
  indent : Option Nat := none

/-- The chomping that a character asks for. -/
def chomping? (c : Char) : Option Chomping :=
  if c = '+' then some .keep else if c = '-' then some .strip else none

/-- Takes an indentation, which is not zero. -/
def takeIndent (s : List Spot) : Option (Option Nat × Left s) :=
  match s with
  | [] => some (none, ⟨[], Nat.le_refl _⟩)
  | c :: rest =>
    if c.char = '0' then none
    else if c.char.isDigit then some (some (digitValue c.char), ⟨rest, by simp⟩)
    else some (none, ⟨c :: rest, Nat.le_refl _⟩)

/-- Takes a chomping, if there is one. -/
def takeChomping (s : List Spot) : Option Chomping × Left s :=
  match s with
  | [] => (none, ⟨[], Nat.le_refl _⟩)
  | c :: rest =>
    match chomping? c.char with
    | some chomping => (some chomping, ⟨rest, by simp⟩)
    | none => (none, ⟨c :: rest, Nat.le_refl _⟩)

/-- Takes an indentation and a chomping in either order. -/
def takeHeaderParts (s : List Spot) : Option (BlockHeader × Left s) := do
  match takeChomping s with
  | (some chomping, ⟨rest, h⟩) =>
    let (indent, left) ← takeIndent rest
    pure ({ chomping, indent }, left.after h)
  | (none, _) =>
    let (indent, ⟨rest, h⟩) ← takeIndent s
    if indent.isSome then
      let (chomping, left) := takeChomping rest
      pure ({ chomping := chomping.getD .clip, indent }, left.after h)
    else pure ({}, .all s)

/-- Empty lines before a line of a block scalar. -/
structure EmptyLines where
  breaks : List Char
  /-- The largest column reached in them or at the start of the line after them. -/
  column : Nat

/-- Skips empty lines and the indentation after them, up to the column `indent` where it is known.
No result for a tab in the indentation. -/
def skipEmptyLines (indent : Option Nat) : (s : List Spot) → Option (EmptyLines × Left s)
  | [] => some (⟨[], 0⟩, ⟨[], Nat.le_refl _⟩)
  | c :: rest =>
    let indents := indent.all fun indent => c.column < indent
    if c.char = ' ' ∧ indents then do
      let (lines, ⟨rest', h⟩) ← skipEmptyLines indent rest
      pure (lines, ⟨rest', by simp only [List.length_cons]; omega⟩)
    else if c.char = '\t' ∧ indents then none
    else if isBreak c.char then do
      let (lines, ⟨rest', h⟩) ← skipEmptyLines indent rest
      pure (⟨c.char :: lines.breaks, max c.column lines.column⟩,
        ⟨rest', by simp only [List.length_cons]; omega⟩)
    else some (⟨[], c.column⟩, ⟨c :: rest, Nat.le_refl _⟩)

/-- The line ends after a line: the first one and those of the empty lines after it. -/
structure LineEnds where
  first : List Char
  others : List Char

/-- What joins two lines. A folded scalar joins lines that start with no blank. -/
def LineEnds.joint (literal afterBlank beforeBlank : Bool) (ends : LineEnds) : List Char :=
  if !literal && ends.first.head? == some '\n' && !afterBlank && !beforeBlank then
    if ends.others.isEmpty then [' '] else ends.others
  else ends.first ++ ends.others

/-- The line ends that stay at the end. -/
def LineEnds.chomped (chomping : Chomping) (ends : LineEnds) : List Char :=
  match chomping with
  | .strip => []
  | .clip => ends.first
  | .keep => ends.first ++ ends.others

/-- Takes the lines at column `indent`, after a line that started with a blank or not and the given
line ends. -/
def takeLines (literal : Bool) (chomping : Chomping) (indent : Nat) (afterBlank : Bool)
    (ends : LineEnds) (s : List Spot) : Option (List Char × Left s) :=
  match s with
  | [] => some (ends.chomped chomping, ⟨[], Nat.le_refl _⟩)
  | c :: rest =>
    if c.column = indent then do
      let startsBlank := isBlank c.char
      let line := c.char :: (rest.takeWhile fun c => !isBreak c.char).map Spot.char
      let ⟨rest', h'⟩ := skipWhile (fun c : Spot => !isBreak c.char) rest
      let first := (rest'.take 1).map Spot.char
      let (lines, ⟨rest'', h''⟩) ← skipEmptyLines (some indent) (rest'.drop 1)
      have hdrop : (rest'.drop 1).length ≤ rest'.length := by simp
      let (others, ⟨rest₃, h₃⟩) ←
        takeLines literal chomping indent startsBlank ⟨first, lines.breaks⟩ rest''
      pure (ends.joint literal afterBlank startsBlank ++ line ++ others,
        ⟨rest₃, by simp only [List.length_cons]; omega⟩)
    else some (ends.chomped chomping, ⟨c :: rest, Nat.le_refl _⟩)
termination_by s.length
decreasing_by simp_wf; omega

/-- Takes a block scalar after its indicator, inside a collection at column `parent`. -/
def takeBlock (literal : Bool) (parent : Int) (s : List Spot) :
    Option (List Char × Left s) := do
  let (header, ⟨rest, h⟩) ← takeHeaderParts s
  let ⟨rest', h'⟩ ← skipLine rest
  let known := header.indent.map fun n => (max parent 0).toNat + n
  let (lines, ⟨rest'', h''⟩) ← skipEmptyLines known rest'
  let indent := known.getD (max lines.column (max (parent + 1) 1).toNat)
  let (text, ⟨rest₃, h₃⟩) ←
    takeLines literal header.chomping indent false ⟨[], lines.breaks⟩ rest''
  pure (text, ⟨rest₃, by omega⟩)

end ModelGraph.Yaml
