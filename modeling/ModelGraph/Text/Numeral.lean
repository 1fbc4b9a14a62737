import ModelGraph.Numeral.Number
import ModelGraph.Text.Taken

/-!
# Numeric literals in text

The parts of a numeric literal, read off the front of a text: an optional minus sign, an integer
part without leading zeros, and optionally a fraction and an exponent, each with a digit at least.

## Main definitions

- `takeInteger` — sign and integer part
- `takeFraction`, `takeExponent` — the two optional parts
-/

namespace ModelGraph.Text

/-- Takes a run of digits. -/
def takeDigits (s : List Char) : Option (Taken (List Nat) s) :=
  (takeWhile Char.isDigit s).map fun t => t.map fun digits => digits.map digitValue

/-- Takes an integer part: a zero alone, or digits that start with another one. -/
def takeWhole (s : List Char) : Option (Taken (List Nat) s) :=
  match takeChar '0' s with
  | some zero => some (zero.map fun _ => [0])
  | none => takeDigits s

/-- Takes an optional minus sign and an integer part. -/
def takeInteger (s : List Char) : Option (Taken (Bool × List Nat) s) :=
  match takeChar '-' s with
  | none => (takeWhole s).map fun t => t.map fun digits => (false, digits)
  | some ⟨_, rest, h⟩ => do
    let digits ← takeWhole rest
    pure ((digits.map fun digits => (true, digits)).after h)

/-- Takes a point and the digits after it. -/
def takeFraction (s : List Char) : Option (Taken (List Nat) s) := do
  let ⟨_, rest, h⟩ ← takeChar '.' s
  let digits ← takeDigits rest
  pure (digits.after h)

/-- Takes an exponent: whether it is negative, and its digits. -/
def takeExponent (s : List Char) : Option (Taken (Bool × List Nat) s) := do
  let ⟨_, rest, h⟩ ← takeIf (fun c => c == 'e' || c == 'E') s
  match takeIf (fun c => c == '+' || c == '-') rest with
  | none => do
    let digits ← takeDigits rest
    pure ((digits.map fun digits => (false, digits)).after h)
  | some ⟨sign, rest', h'⟩ => do
    let digits ← takeDigits rest'
    pure (((digits.map fun digits => (sign == '-', digits)).after h').after h)

end ModelGraph.Text
