import ModelGraph.Numeral.Number
import ModelGraph.Yaml.Token

/-!
# Directives, anchors and tags

What a percent sign at the start of a line announces, the names of anchors, and tags: a handle that
stands for some text, and a suffix.

## Main definitions

- `Yaml.takeDirective` — takes a directive
- `Yaml.takeAnchorName` — takes the name of an anchor or an alias
- `Yaml.takeTag` — takes a tag
-/

namespace ModelGraph.Yaml

open Text

/-- Letters, digits, `_` and `-`. -/
def isNamePart (c : Char) : Bool := c.isAlphanum || c == '_' || c == '-'

/-- Takes the longest nonempty front of characters that satisfy `p`, as text. -/
def takeText (p : Char → Bool) (s : List Spot) : Option (Taken String s) :=
  (takeWhile (fun c : Spot => p c.char) s).map fun t =>
    t.map fun spots => String.ofList (spots.map Spot.char)

/-- Takes the given character. -/
def takeMark (c : Char) (s : List Spot) : Option (Taken Spot s) :=
  takeIf (fun d => d.char == c) s

/-! ### Tags -/

/-- Characters of tags. -/
def isTagPart (c : Char) : Bool :=
  isNamePart c || c == ';' || c == '/' || c == '?' || c == ':' || c == '@' || c == '&' || c == '='
    || c == '+' || c == '$' || c == '.' || c == '%' || c == '!' || c == '~' || c == '*'
    || c == '\'' || c == '(' || c == ')'

/-- Characters of tags between angle brackets and of what handles stand for. -/
def isVerbatimPart (c : Char) : Bool := isTagPart c || c == ',' || c == '[' || c == ']'

/-- The bytes of a tag, in which a percent sign and two hexadecimal digits stand for a byte. -/
def tagBytes? : List Char → Option (List UInt8)
  | [] => some []
  | '%' :: a :: b :: rest => do
    let n ← hexNumber? [a, b]
    let bytes ← tagBytes? rest
    pure (n.toUInt8 :: bytes)
  | '%' :: _ => none
  | c :: rest => do
    let bytes ← tagBytes? rest
    pure ((String.singleton c).toUTF8.toList ++ bytes)

/-- The text of a tag, when its bytes are text. -/
def tagText? (written : String) : Option String := do
  let bytes ← tagBytes? written.toList
  String.fromUTF8? ⟨bytes.toArray⟩

/-- A handle as written: an exclamation mark, a name, and another mark if there is one. -/
structure Handle where
  name : String
  closed : Bool

/-- The written form of a handle. -/
def Handle.text (handle : Handle) : String :=
  "!" ++ handle.name ++ if handle.closed then "!" else ""

/-- Takes a handle. -/
def takeHandle (s : List Spot) : Option (Taken Handle s) := do
  let ⟨_, rest, h⟩ ← takeMark '!' s
  let name := String.ofList ((rest.takeWhile fun c => isNamePart c.char).map Spot.char)
  let ⟨rest', h'⟩ := skipWhile (fun c : Spot => isNamePart c.char) rest
  match takeMark '!' rest' with
  | some ⟨_, rest'', h''⟩ => pure ⟨⟨name, true⟩, rest'', by omega⟩
  | none => pure ⟨⟨name, false⟩, rest', by omega⟩

/-- Whether a tag may end here. -/
def endsTag (flow : Bool) (s : List Spot) : Bool :=
  atGap s || (flow && startsWith (· == ',') s)

/-- Takes a tag: verbatim between angle brackets, a handle and a suffix, or a local name. A lone
exclamation mark is a tag of its own. -/
def takeTag (flow : Bool) (s : List Spot) : Option (Taken Token s) := do
  let ⟨_, start, hstart⟩ ← takeMark '!' s
  let ⟨tag, rest, h⟩ : Taken Token s ←
    match takeMark '<' start with
    | some ⟨_, rest, h⟩ => do
      let ⟨written, rest', h'⟩ ← takeText isVerbatimPart rest
      let ⟨_, rest'', h''⟩ ← takeMark '>' rest'
      let suffix ← tagText? written
      pure ⟨.tag "" suffix, rest'', by omega⟩
    | none => do
      let ⟨handle, rest, h⟩ ← takeHandle s
      if handle.closed then do
        let ⟨written, rest', h'⟩ ← takeText isTagPart rest
        let suffix ← tagText? written
        pure ⟨.tag handle.text suffix, rest', by omega⟩
      else do
        let more := rest.takeWhile fun c => isTagPart c.char
        let ⟨rest', h'⟩ := skipWhile (fun c : Spot => isTagPart c.char) rest
        let suffix ← tagText? (handle.name ++ String.ofList (more.map Spot.char))
        let tag : Token := if suffix.isEmpty then .tag "" "!" else .tag "!" suffix
        pure ⟨tag, rest', by omega⟩
  if endsTag flow rest then pure ⟨tag, rest, h⟩ else none

/-! ### Anchors -/

/-- Whether the name of an anchor may end here. -/
def endsAnchor (s : List Spot) : Bool :=
  atGap s || startsWith (fun c => c == '?' || c == ':' || c == ',' || c == ']' || c == '\x7d'
    || c == '%' || c == '@' || c == '\x60') s

/-- Takes the name of an anchor or an alias. -/
def takeAnchorName (s : List Spot) : Option (Taken String s) := do
  let ⟨name, rest, h⟩ ← takeText isNamePart s
  if endsAnchor rest then pure ⟨name, rest, h⟩ else none

/-! ### Directives -/

/-- Takes a number of at most nine digits. -/
def takeVersionPart (s : List Spot) : Option (Taken Nat s) := do
  let ⟨digits, rest, h⟩ ← takeText Char.isDigit s
  if digits.length ≤ 9 then
    pure ⟨Literal.natOf (digits.toList.map digitValue), rest, h⟩
  else none

/-- Takes the two numbers of a version. -/
def takeVersion (s : List Spot) : Option (Taken Token s) := do
  let ⟨start, hstart⟩ := skipBlanks s
  let ⟨major, rest, h⟩ ← takeVersionPart start
  let ⟨_, rest', h'⟩ ← takeMark '.' rest
  let ⟨minor, rest'', h''⟩ ← takeVersionPart rest'
  pure ⟨.version major minor, rest'', by omega⟩

/-- Takes a handle and the text it stands for. -/
def takeTagHandle (s : List Spot) : Option (Taken Token s) := do
  let ⟨start, hstart⟩ := skipBlanks s
  let ⟨handle, rest, h⟩ ← takeHandle start
  if handle.closed || handle.name.isEmpty then
    if startsWith isBlank rest then
      let ⟨rest', h'⟩ := skipBlanks rest
      let ⟨written, rest'', h''⟩ ← takeText isVerbatimPart rest'
      let expansion ← tagText? written
      if atGap rest'' then pure ⟨.tagHandle handle.text expansion, rest'', by omega⟩ else none
    else none
  else none

/-- Takes a directive after its percent sign, up to the end of its line. -/
def takeDirective (s : List Spot) : Option (Taken Token s) := do
  let ⟨name, rest, h⟩ ← takeText isNamePart s
  if atGap rest then
    let ⟨token, rest', h'⟩ ←
      if name = "YAML" then takeVersion rest
      else if name = "TAG" then takeTagHandle rest
      else none
    let ⟨line, hline⟩ ← skipLine rest'
    pure ⟨token, line, by omega⟩
  else none

end ModelGraph.Yaml
