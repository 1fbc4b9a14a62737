import ModelGraph.Tree.Basic
import ModelGraph.Text.Numeral

/-!
# What scalars stand for

The core rules for plain scalars: `null` and `~` are null, `true` and `false` are booleans, digits
are integers, decimals are floats, and everything else is text. Words such as `yes` are text.

## Main definitions

- `boolOf?`, `isNullText`, `natural?` — the rules for single kinds
- `Content` — what a scalar stands for
- `ScalarText.content` — the content of a scalar, its tag included
- `Tree.isBuffered` — whether every part of a tree has some content
-/

namespace ModelGraph

open Text

/-- Whether a plain scalar is spelled as null. -/
def isNullText (text : String) : Bool :=
  text = "null" || text = "Null" || text = "NULL" || text = "~"

/-- The boolean that a plain scalar spells. -/
def boolOf? (text : String) : Option Bool :=
  if text = "true" ∨ text = "True" ∨ text = "TRUE" then some true
  else if text = "false" ∨ text = "False" ∨ text = "FALSE" then some false
  else none

/-- The value of a digit in a radix. -/
def radixDigit? (radix : Nat) (c : Char) : Option Nat :=
  (hexValue? c).filter fun d => decide (d < radix)

/-- The number that nonempty digits write in a radix. -/
def radixNumber? (radix : Nat) (digits : List Char) : Option Nat :=
  if digits.isEmpty then none
  else digits.foldlM (fun n c => (radixDigit? radix c).map fun d => n * radix + d) 0

/-- Whether digits, after an optional sign, start with a needless zero: such a scalar is text. -/
def hasLeadingZero (text : List Char) : Bool :=
  let digits := match text with
    | '+' :: rest | '-' :: rest => rest
    | _ => text
  match digits with
  | '0' :: d :: rest => (d :: rest).all Char.isDigit
  | _ => false

/-- The integer that characters without a minus sign write: decimal with an optional plus sign, or
after `0x`, `0o` or `0b`. -/
def naturalOf? (text : List Char) : Option Nat :=
  let unsigned := match text with
    | '+' :: rest => rest
    | _ => text
  let decimal := if hasLeadingZero text then none else radixNumber? 10 unsigned
  match unsigned with
  | '0' :: 'x' :: rest => radixNumber? 16 rest
  | '0' :: 'o' :: rest => radixNumber? 8 rest
  | '0' :: 'b' :: rest => radixNumber? 2 rest
  | _ => decimal

/-- The magnitude of the integer that characters with a minus sign write. -/
def negativeOf? (text : List Char) : Option Nat :=
  match text with
  | '-' :: '0' :: 'x' :: rest => radixNumber? 16 rest
  | '-' :: '0' :: 'o' :: rest => radixNumber? 8 rest
  | '-' :: '0' :: 'b' :: rest => radixNumber? 2 rest
  | '-' :: rest => if hasLeadingZero text then none else radixNumber? 10 rest
  | _ => none

/-- The unsigned integer of 64 bits that a plain scalar writes. -/
def natural? (text : String) : Option Nat :=
  (naturalOf? text.toList).filter fun n => decide (n < powerOfTwo 64)

/-- The exponent of a decimal; `none` when there is none, and no result for anything else. -/
def decimalExponent? (s : List Char) : Option (Option Int) :=
  if s.isEmpty then some none
  else do
    let ⟨(down, digits), rest, _⟩ ← takeExponent s
    if rest.isEmpty then
      let n : Int := Literal.natOf digits
      some (some (if down then -n else n))
    else none

/-- Whether characters without a sign write a finite decimal, with digits before the point or
after it. -/
def isUnsignedDecimal (s : List Char) : Bool :=
  let whole := s.takeWhile Char.isDigit
  let rest := s.dropWhile Char.isDigit
  let (fraction, tail) := match rest with
    | '.' :: after => (after.takeWhile Char.isDigit, after.dropWhile Char.isDigit)
    | _ => ([], rest)
  if whole.isEmpty && fraction.isEmpty then false
  else
    match decimalExponent? tail with
    | none => false
    | some exponent =>
      let digits := (whole ++ fraction).map digitValue
      let power := exponent.getD 0 - fraction.length
      let significand := Literal.natOf digits
      -- past this power even the smallest digits are too large
      if significand = 0 ∨ power ≤ 0 then true
      else if 400 < power then false
      else (Double.roundRatio (significand * powerOfTen power.toNat) 1).isSome

/-- Whether a plain scalar is a float: a decimal with an optional sign, infinity or no number. -/
def isFloatText (text : String) : Bool :=
  let chars := text.toList
  let unsigned := match chars with
    | '+' :: rest => rest
    | _ => chars
  let infinite (s : List Char) : Bool :=
    s = ".inf".toList || s = ".Inf".toList || s = ".INF".toList
  let noNumber := text = ".nan" || text = ".NaN" || text = ".NAN"
  match chars with
  | '-' :: rest => infinite rest || isUnsignedDecimal rest
  | _ => infinite unsigned || noNumber || isUnsignedDecimal unsigned

/-- What a scalar stands for. -/
inductive Content where
  | null
  | bool (value : Bool)
  /-- An unsigned integer of 64 bits. -/
  | natural (value : Nat)
  /-- Any other number. -/
  | number
  | text (value : String)
  /-- A tag that does not fit, or an integer of more than 64 bits. -/
  | refused
deriving DecidableEq, Repr

namespace ScalarText

/-- The integer a scalar writes, refused past 64 bits; `none` when it writes none. -/
def integer? (text : List Char) : Option Content :=
  match naturalOf? text with
  | some n =>
    if n < powerOfTwo 64 then some (.natural n)
    else if n < powerOfTwo 128 then some .refused
    else none
  | none =>
    match negativeOf? text with
    | some n =>
      if n ≤ powerOfTwo 63 then some .number
      else if n ≤ powerOfTwo 127 then some .refused
      else none
    | none => none

/-- What an untagged plain scalar stands for. -/
def plainContent (text : String) : Content :=
  if text.isEmpty || isNullText text then .null
  else
    match boolOf? text with
    | some value => .bool value
    | none =>
      match integer? text.toList with
      | some content => content
      | none =>
        if !hasLeadingZero text.toList && isFloatText text then .number else .text text

/-- The tags of the core kinds. -/
def coreTag (kind : String) : String := "tag:yaml.org,2002:" ++ kind

/-- Whether a tag names a kind of its own, which no content has. -/
def isLocalTag (tag : Option String) : Bool :=
  match tag with
  | some tag => tag.startsWith "!" && tag != "!"
  | none => false

/-- What a scalar stands for, its tag included. -/
def content (s : ScalarText) : Content :=
  match s.tag with
  | none => if s.plain then plainContent s.text else .text s.text
  | some tag =>
    if isLocalTag s.tag then .refused
    else if tag = coreTag "bool" then
      match boolOf? s.text with
      | some value => .bool value
      | none => .refused
    else if tag = coreTag "int" then (integer? s.text.toList).getD .refused
    else if tag = coreTag "float" then if isFloatText s.text then .number else .refused
    else if tag = coreTag "null" then if isNullText s.text then .null else .refused
    else if tag = "!" && s.plain then plainContent s.text
    else .text s.text

end ScalarText

namespace Tree

mutual

/-- Whether every scalar of the tree has content, no node has a local tag and no alias is cyclic. -/
def isBuffered : Tree → Bool
  | .scalar s => s.content != .refused
  | .sequence tag items => !ScalarText.isLocalTag tag && areBuffered items
  | .mapping tag entries => !ScalarText.isLocalTag tag && areBufferedEntries entries
  | .cycle => false

/-- Whether every tree of a list has content. -/
def areBuffered : List Tree → Bool
  | [] => true
  | item :: rest => isBuffered item && areBuffered rest

/-- Whether every key and value has content. -/
def areBufferedEntries : List (Tree × Tree) → Bool
  | [] => true
  | (key, value) :: rest => isBuffered key && isBuffered value && areBufferedEntries rest

end

end Tree

end ModelGraph
