import ModelGraph.Numeral.Shortest

/-!
# Numbers and their literals

A number is an integer of 64 bits, signed or unsigned, or a finite binary64 value. A literal that
is an integer of that range stays one; every other literal becomes a binary64 value.

Reading keeps the leading digits that fit an unsigned word of 64 bits, counts the integer digits
dropped after them, and then scales once by a power of ten.

## Main definitions

- `Number` — an integer or a binary64 value
- `Literal` — the parts of a numeric literal
- `Literal.value?` — what a literal stands for; `none` past the largest finite value
- `Number.text` — the written form
-/

namespace ModelGraph

/-- A JSON number: an integer of 64 bits or a finite binary64 value. -/
inductive Number where
  | int (value : Int)
  | float (value : Double)
deriving DecidableEq, Repr

instance : Inhabited Number := ⟨.int 0⟩

namespace Number

/-- The written form of a number. -/
def text : Number → String
  | .int value => toString value
  | .float value => value.text

/-- The value as a signed integer of 64 bits, when it is one. -/
def int64? : Number → Option Int
  | .int value => if value < powerOfTwo 63 then some value else none
  | .float _ => none

/-- Whether two numbers are equal and of one kind. The two zeros are equal. -/
def same : Number → Number → Bool
  | .int a, .int b => a = b
  | .float a, .float b => a = b || (a.magnitude = 0 && b.magnitude = 0)
  | _, _ => false

/-- Whether the number is below zero. -/
def isBelowZero : Number → Bool
  | .int value => decide (value < 0)
  | .float value => value.isBelowZero

end Number

/-- The parts of a numeric literal, digits as their values. -/
structure Literal where
  negative : Bool
  /-- Digits before the point. -/
  whole : List Nat
  /-- Digits after the point, when there is one. -/
  fraction : Option (List Nat)
  /-- Sign and digits of the exponent, when there is one. -/
  exponent : Option (Bool × List Nat)
deriving Repr

namespace Literal

/-- The largest unsigned integer of 64 bits. -/
def maxWord : Nat := powerOfTwo 64 - 1

/-- Appends digits to a significand up to the first that would pass 64 bits; returns the rest. -/
def extend (significand : Nat) : List Nat → Nat × List Nat
  | [] => (significand, [])
  | d :: rest =>
    if significand * 10 + d ≤ maxWord then extend (significand * 10 + d) rest
    else (significand, d :: rest)

/-- The natural number that digits write. -/
def natOf (digits : List Nat) : Nat :=
  digits.foldl (fun n d => n * 10 + d) 0

/-- The largest exponent that still counts exactly. -/
def maxExponent : Nat := powerOfTwo 31 - 1

/-- Divides a magnitude by `10 ^ power`, in steps of at most 308 places. -/
def divide (magnitude power : Nat) : Option Nat :=
  if power ≤ 308 then Double.scaleDown magnitude power
  else if magnitude = 0 then some 0
  else do
    let smaller ← Double.scaleDown magnitude 308
    divide smaller (power - 308)
termination_by power

/-- The magnitude of `significand * 10 ^ power`. -/
def scale (significand : Nat) (power : Int) : Option Nat := do
  let start ← Double.roundRatio significand 1
  if power < 0 then divide start power.natAbs
  else if power ≤ 308 then Double.scaleUp start power.toNat
  else if start = 0 then some 0
  else none

/-- The magnitude of a literal that is not an integer of 64 bits. -/
def magnitude? (l : Literal) : Option Nat :=
  let fraction := l.fraction.getD []
  let (head, dropped) := extend 0 l.whole
  let (significand, unread) := extend head fraction
  let power : Int := (dropped.length : Int) - (fraction.length - unread.length : Nat)
  match l.exponent with
  | none => scale significand power
  | some (down, digits) =>
    let exponent := natOf digits
    if exponent ≤ maxExponent then
      scale significand (if down then power - exponent else power + exponent)
    else if significand = 0 ∨ down then some 0
    else none

/-- The integer of 64 bits that a literal without point and exponent writes. Negative zero is
not one. -/
def integer? (l : Literal) : Option Int :=
  if l.fraction.isSome || l.exponent.isSome then none
  else
    let n := natOf l.whole
    if l.negative then
      if 0 < n ∧ n ≤ powerOfTwo 63 then some (-(n : Int)) else none
    else if n ≤ maxWord then some n else none

/-- The number a literal stands for, or `none` when it lies past the largest finite value. -/
def value? (l : Literal) : Option Number :=
  match l.integer? with
  | some n => some (.int n)
  | none => l.magnitude?.map fun magnitude => .float ⟨l.negative, magnitude⟩

end Literal

end ModelGraph
