import ModelGraph.Yaml.Block
import ModelGraph.Yaml.Plain
import ModelGraph.Yaml.Property
import ModelGraph.Yaml.Quoted

/-!
# The tokens of a text

Block collections start and end with the indentation of their entries, and a mapping key is known
only when the colon after it is met: the start of the mapping and the mark of the key are then put in
front of the tokens of the key. A key without a mark of its own has to end in its line, within 1024
characters.

## Main definitions

- `Yaml.Layout` — the tokens so far, with the open collections and possible keys
- `Yaml.tokens?` — the tokens of a text
-/

namespace ModelGraph.Yaml

open Text

/-- A place at which a mapping key may have started. -/
structure PossibleKey where
  /-- The number of tokens before the key. -/
  place : Nat
  /-- Whether nothing but a key can stand here. -/
  required : Bool
  spot : Spot

/-- The tokens so far, with what has to be known to go on. -/
structure Layout where
  tokens : Array Token := #[]
  /-- The column of the innermost block collection; −1 outside of all. -/
  indent : Int := -1
  /-- The columns of the block collections around it, innermost first. -/
  enclosing : List Int := []
  /-- Where a key may have started in the innermost collection. -/
  key : Option PossibleKey := none
  /-- The same for what stands around each open flow collection, innermost first. -/
  outerKeys : List (Option PossibleKey) := []
  /-- Whether a key without a mark of its own may start here. -/
  keyAllowed : Bool := true

namespace Layout

/-- Whether a flow collection is open. -/
def flow (l : Layout) : Bool := !l.outerKeys.isEmpty

/-- Appends a token. -/
def push (l : Layout) (token : Token) : Layout := { l with tokens := l.tokens.push token }

/-- Whether a key may start at the next token. -/
def allowKey (l : Layout) (allowed : Bool) : Layout := { l with keyAllowed := allowed }

/-! ### Indentation -/

/-- Ends the given number of block collections that are indented further than a column. -/
def unrollFrom (column : Int) : List Int → Layout → Layout
  | outer :: enclosing, l =>
    if column < l.indent then
      unrollFrom column enclosing { l.push .blockEnd with indent := outer, enclosing }
    else l
  | [], l => l

/-- Ends the block collections that are indented further than a column. -/
def unroll (l : Layout) (column : Int) : Layout :=
  if l.flow then l else unrollFrom column l.enclosing l

/-- Starts a block collection at a column that is indented further than the innermost one. Its
token stands before the token with the number `place`. -/
def roll (l : Layout) (column : Nat) (place : Nat) (start : Token) : Layout :=
  if !l.flow ∧ l.indent < column then
    { l with
      tokens := l.tokens.insertIdxIfInBounds place start
      indent := column
      enclosing := l.indent :: l.enclosing }
  else l

/-! ### Keys -/

/-- Forgets the possible key, which must not be required. -/
def forgetKey (l : Layout) : Option Layout :=
  if l.key.any PossibleKey.required then none else some { l with key := none }

/-- Notes that a key may start at a character. -/
def noteKey (l : Layout) (c : Spot) : Option Layout :=
  if l.keyAllowed then do
    let l ← l.forgetKey
    let required := !l.flow && l.indent == c.column
    pure { l with key := some { place := l.tokens.size, required, spot := c } }
  else some l

/-- The longest key without a mark of its own. -/
def maxKeyLength : Nat := 1024

/-- The key as it is possible up to a character; a required one must be. -/
def freshKey (c : Spot) (key : Option PossibleKey) : Option (Option PossibleKey) :=
  match key with
  | none => some none
  | some key =>
    if key.spot.line < c.line ∨ key.spot.index + maxKeyLength < c.index then
      if key.required then none else some none
    else some (some key)

/-- Forgets the keys that cannot reach up to a character. -/
def dropStaleKeys (l : Layout) (c : Spot) : Option Layout := do
  let key ← freshKey c l.key
  let outerKeys ← l.outerKeys.mapM (freshKey c)
  pure { l with key, outerKeys }

/-! ### Tokens -/

/-- Ends all block collections. -/
def close (l : Layout) : Option Layout := (l.unroll (-1)).forgetKey

/-- Opens a flow collection. -/
def openFlow (l : Layout) (c : Spot) (start : Token) : Option Layout := do
  let l ← l.noteKey c
  pure (({ l with key := none, outerKeys := l.key :: l.outerKeys }.allowKey true).push start)

/-- Closes a flow collection. -/
def closeFlow (l : Layout) (stop : Token) : Option Layout := do
  let l ← l.forgetKey
  let l := match l.outerKeys with
    | key :: outerKeys => { l with key, outerKeys }
    | [] => l
  pure ((l.allowKey false).push stop)

/-- Adds the mark of an entry of a block sequence. In flow collections it is out of place, which
shows when nodes are read. -/
def blockEntry (l : Layout) (c : Spot) : Option Layout := do
  if !l.flow && !l.keyAllowed then none
  else
    let l ← (l.roll c.column l.tokens.size .blockSequenceStart).forgetKey
    pure ((l.allowKey true).push .blockEntry)

/-- Adds the mark of a key. -/
def explicitKey (l : Layout) (c : Spot) : Option Layout := do
  if !l.flow && !l.keyAllowed then none
  else
    let l ← (l.roll c.column l.tokens.size .blockMappingStart).forgetKey
    pure ((l.allowKey !l.flow).push .key)

/-- Adds the mark of a value, and that of its key where a key may have started. -/
def value (l : Layout) (c : Spot) : Option Layout :=
  match l.key with
  | some key =>
    let l := { l with tokens := l.tokens.insertIdxIfInBounds key.place .key, key := none }
    let l := l.roll key.spot.column key.place .blockMappingStart
    some ((l.allowKey false).push .value)
  | none =>
    if !l.flow && !l.keyAllowed then none
    else
      let l := l.roll c.column l.tokens.size .blockMappingStart
      some ((l.allowKey !l.flow).push .value)

/-- Whether a character may start a plain scalar, given what comes after it. -/
def startsPlain (flow : Bool) (c : Char) (rest : List Spot) : Bool :=
  let isIndicator := c == '-' || c == '?' || c == ':' || isFlowMark c || c == '#' || c == '&'
    || c == '*' || c == '!' || c == '|' || c == '>' || c == '\'' || c == '"' || c == '%'
    || c == '@' || c == '\x60'
  (!isIndicator && !isGap c)
    || (c == '-' && !startsWith isBlank rest)
    || (!flow && (c == '?' || c == ':') && !atGap rest)

/-- Takes the next token. -/
def next (l : Layout) (s : List Spot) : Option (Taken Layout s) :=
  match s with
  | [] => none
  | c :: rest =>
    let alone (l : Layout) : Taken Layout (c :: rest) := .head l
    if c.column = 0 ∧ c.char = '%' then do
      let l ← l.close
      let token ← takeDirective rest
      pure (token.map (l.allowKey false).push).afterHead
    else if marks '-' (c :: rest) then do
      let l ← l.close
      pure ((Left.skip 2 rest).takingHead ((l.allowKey false).push .documentStart))
    else if marks '.' (c :: rest) then do
      let l ← l.close
      pure ((Left.skip 2 rest).takingHead ((l.allowKey false).push .documentEnd))
    else if c.char = '[' then (l.openFlow c .flowSequenceStart).map alone
    else if c.char = '\x7b' then (l.openFlow c .flowMappingStart).map alone
    else if c.char = ']' then (l.closeFlow .flowSequenceEnd).map alone
    else if c.char = '\x7d' then (l.closeFlow .flowMappingEnd).map alone
    else if c.char = ',' then l.forgetKey.map fun l => alone ((l.allowKey true).push .flowEntry)
    else if c.char = '-' ∧ atGap rest then (l.blockEntry c).map alone
    else if c.char = '?' ∧ (l.flow ∨ atGap rest) then (l.explicitKey c).map alone
    else if c.char = ':' ∧ (l.flow ∨ atGap rest) then (l.value c).map alone
    else if c.char = '*' ∨ c.char = '&' then do
      let l ← l.noteKey c
      let name ← takeAnchorName rest
      let token (name : String) : Token := if c.char = '*' then .alias name else .anchor name
      pure (name.map fun name => (l.allowKey false).push (token name)).afterHead
    else if c.char = '!' then do
      let l ← l.noteKey c
      let tag ← takeTag l.flow (c :: rest)
      pure (tag.map (l.allowKey false).push)
    else if (c.char = '|' ∨ c.char = '>') ∧ !l.flow then do
      let l ← l.forgetKey
      let (text, left) ← takeBlock (c.char = '|') l.indent rest
      pure (left.takingHead ((l.allowKey true).push (.scalar (String.ofList text) false)))
    else if c.char = '\'' ∨ c.char = '"' then do
      let l ← l.noteKey c
      let text ← takeQuoted (c.char = '\'') rest
      pure (text.map fun text =>
        (l.allowKey false).push (.scalar (String.ofList text) false)).afterHead
    else if startsPlain l.flow c.char rest then do
      let l ← l.noteKey c
      let plain ← takePlain l.flow (l.indent + 1) (c :: rest)
      pure (plain.map fun plain =>
        (l.allowKey plain.broken).push (.scalar (String.ofList plain.text) true))
    else none

end Layout

/-- Skips what stands before a token: blanks, comments and line ends. Tabs are skipped only where no
key may start. Says also whether a key may start at the token: in block context a new line lets one
start. -/
def skipToToken (flow keyAllowed : Bool) (s : List Spot) : Bool × Left s :=
  match s with
  | [] => (keyAllowed, .all [])
  | c :: rest =>
    let isSkipped := c.char == ' ' || (c.char == '\t' && (flow || !keyAllowed))
      || (c.char == '\ufeff' && c.index == 0)
    if isSkipped then (skipToToken flow keyAllowed rest).map id Left.afterHead
    else if c.char = '#' then
      let ⟨line, hline⟩ := skipWhile (fun c : Spot => !isBreak c.char) rest
      (skipToToken flow keyAllowed line).map id fun left => (left.after hline).afterHead
    else if isBreak c.char then
      (skipToToken flow (keyAllowed || !flow) rest).map id Left.afterHead
    else (keyAllowed, .all (c :: rest))
termination_by s.length
decreasing_by all_goals (simp_wf <;> omega)

/-- Adds the tokens of a text. -/
def Layout.run (l : Layout) (s : List Spot) : Option (Array Token) :=
  let (keyAllowed, ⟨start, hstart⟩) := skipToToken l.flow l.keyAllowed s
  match start, hstart with
  | [], _ => l.close.map Layout.tokens
  | c :: rest, hstart => do
    let l ← (l.allowKey keyAllowed).dropStaleKeys c
    let ⟨l, rest', h⟩ ← (l.unroll c.column).next (c :: rest)
    have : rest'.length < s.length := Nat.lt_of_lt_of_le h hstart
    l.run rest'
termination_by s.length

/-- The tokens of a text. -/
def tokens? (text : String) : Option (List Token) := do
  let spots ← spots? text
  let tokens ← Layout.run {} spots
  pure tokens.toList

end ModelGraph.Yaml
