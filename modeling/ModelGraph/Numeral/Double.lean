/-!
# Finite binary64 values

A finite binary64 value is held as its sign and its place in the ascending list of all
non-negative finite values, which is also its bit pattern without the sign bit. Every operation
works on exact natural-number ratios and rounds once, to the nearest value and on a tie to the
even significand.

## Main definitions

- `powerOfTwo`, `powerOfTen` — the powers that scale values
- `Double` — sign and magnitude, where the magnitude is a place below `Double.limit`
- `Double.roundRatio` — the magnitude nearest to a ratio, or `none` past the largest one
- `Double.significand`, `Double.exponent` — the exact value `significand * 2 ^ exponent`
-/

namespace ModelGraph

/-- A power of two. -/
def powerOfTwo (n : Nat) : Nat := Nat.pow 2 n

/-- A power of ten. -/
def powerOfTen (n : Nat) : Nat := Nat.pow 10 n

/-- A finite binary64 value. -/
structure Double where
  /-- Whether the sign bit is set; zero has both signs. -/
  negative : Bool
  /-- The place among the non-negative finite values. -/
  magnitude : Nat
deriving DecidableEq, Inhabited, Repr

namespace Double

/-- The number of non-negative finite values. -/
def limit : Nat := 2047 * powerOfTwo 52

/-- Positive zero. -/
def zero : Double := ⟨false, 0⟩

/-- The integer significand of a magnitude. -/
def significand (magnitude : Nat) : Nat :=
  if magnitude < powerOfTwo 52 then magnitude
  else powerOfTwo 52 + magnitude % powerOfTwo 52

/-- The power of two that scales the significand of a magnitude. -/
def exponent (magnitude : Nat) : Int :=
  if magnitude < powerOfTwo 52 then -1074 else (magnitude / powerOfTwo 52 : Nat) - 1075

/-- A magnitude as an exact ratio. -/
def toRatio (magnitude : Nat) : Nat × Nat :=
  let e := exponent magnitude
  (significand magnitude * powerOfTwo e.toNat, powerOfTwo (-e).toNat)

/-- The quotient rounded to the nearest natural number, a tie to the even one. -/
def roundQuotient (num den : Nat) : Nat :=
  let q := num / den
  let r := num % den
  if 2 * r > den ∨ (2 * r = den ∧ q % 2 = 1) then q + 1 else q

/-- The largest power of two that is at most a positive ratio. -/
def ratioLog2 (num den : Nat) : Int :=
  let guess : Int := (num.log2 : Int) - den.log2
  if den * powerOfTwo guess.toNat ≤ num * powerOfTwo (-guess).toNat then guess else guess - 1

/-- The magnitude nearest to `num / den`, or `none` when that lies past the largest one. -/
def roundRatio (num den : Nat) : Option Nat :=
  if num = 0 then some 0
  else
    let e := max (ratioLog2 num den - 52) (-1074)
    let q := roundQuotient (num * powerOfTwo (-e).toNat) (den * powerOfTwo e.toNat)
    let magnitude := (e + 1074).toNat * powerOfTwo 52 + q
    if magnitude < limit then some magnitude else none

/-- The rounded product of a magnitude and a power of ten that is itself rounded first. -/
def scaleUp (magnitude power : Nat) : Option Nat := do
  let ten ← roundRatio (powerOfTen power) 1
  let (num, den) := toRatio magnitude
  let (num', den') := toRatio ten
  roundRatio (num * num') (den * den')

/-- The rounded quotient of a magnitude by a power of ten that is itself rounded first. -/
def scaleDown (magnitude power : Nat) : Option Nat := do
  let ten ← roundRatio (powerOfTen power) 1
  let (num, den) := toRatio magnitude
  let (num', den') := toRatio ten
  roundRatio (num * den') (den * num')

/-- Whether the value is below zero; negative zero is not. -/
def isBelowZero (x : Double) : Bool :=
  x.negative && x.magnitude != 0

end Double

end ModelGraph
