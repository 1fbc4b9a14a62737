import ModelGraph.Numeral.Double

/-!
# Shortest decimal digits

The decimal with the fewest digits that still rounds to a given binary64 value, and of those the
nearest one. For one digit, two digits and so on, the value's two neighbours on that decimal grid
are tested against the interval of reals that round to the value; the first grid with a hit wins.

## Main definitions

- `Double.shortest` — digits and decimal exponent
- `Double.text` — the written form: positional while the first digit stands between the fifth
  place after the point and the sixteenth before it, scientific otherwise
-/

namespace ModelGraph.Double

/-- The interval of reals that round to a positive magnitude, in units of a quarter of its last
binary place, together with the value itself and the exponent of that unit. -/
structure RoundingInterval where
  low : Nat
  value : Nat
  high : Nat
  /-- Whether both ends round to the value. -/
  closed : Bool
  exponent : Int

/-- The interval around a magnitude: below a power of two the gap is half as wide. -/
def roundingInterval (magnitude : Nat) : RoundingInterval :=
  let m := significand magnitude
  let below := if m = powerOfTwo 52 ∧ powerOfTwo 52 < magnitude then 1 else 2
  ⟨4 * m - below, 4 * m, 4 * m + 2, m % 2 = 0, exponent magnitude - 2⟩

/-- Whether `digits * 10 ^ power` lies in the interval. -/
def RoundingInterval.holds (i : RoundingInterval) (digits : Nat) (power : Int) : Bool :=
  let left := digits * powerOfTen power.toNat * powerOfTwo (-i.exponent).toNat
  let scale := powerOfTen (-power).toNat * powerOfTwo i.exponent.toNat
  if i.closed then decide (i.low * scale ≤ left) && decide (left ≤ i.high * scale)
  else decide (i.low * scale < left) && decide (left < i.high * scale)

/-- The place of the leading decimal digit: the power of ten just above a positive ratio. -/
def decimalPlace (num den : Nat) : Int :=
  let digits (n : Nat) : Nat := (Nat.toDigits 10 n).length
  let guess : Int := (digits num : Int) - digits den
  if den * powerOfTen guess.toNat ≤ num * powerOfTen (-guess).toNat then guess + 1 else guess

/-- Tests the grids from `count` digits on; `fuel` more of them may be tried. -/
def shortestFrom (i : RoundingInterval) (num den : Nat) (place : Int) :
    (fuel count : Nat) → Nat × Int
  | 0, count =>
    let power := place - count
    (num * powerOfTen (-power).toNat / (den * powerOfTen power.toNat), power)
  | fuel + 1, count =>
    let power := place - count
    let scaledNum := num * powerOfTen (-power).toNat
    let scaledDen := den * powerOfTen power.toNat
    let floor := scaledNum / scaledDen
    let rest := scaledNum % scaledDen
    let up := i.holds (floor + 1) power
    if i.holds floor power then
      if up && (decide (scaledDen < 2 * rest)
          || (decide (scaledDen = 2 * rest) && decide (floor % 2 = 1))) then
        (floor + 1, power)
      else (floor, power)
    else if up then (floor + 1, power)
    else shortestFrom i num den place fuel (count + 1)

/-- Moves trailing zero digits into the exponent; at most `fuel` of them. -/
def dropZeros : (fuel : Nat) → Nat → Int → Nat × Int
  | 0, digits, power => (digits, power)
  | fuel + 1, digits, power =>
    if digits % 10 = 0 then dropZeros fuel (digits / 10) (power + 1) else (digits, power)

/-- The fewest decimal digits that round to a positive magnitude, with their power of ten.
Seventeen digits always suffice. -/
def shortest (magnitude : Nat) : Nat × Int :=
  let (num, den) := toRatio magnitude
  let place := decimalPlace num den
  let (digits, power) := shortestFrom (roundingInterval magnitude) num den place 17 1
  dropZeros 20 digits power

/-- The written form of a positive magnitude. -/
def magnitudeText (magnitude : Nat) : String :=
  let (digits, power) := shortest magnitude
  let text := Nat.toDigits 10 digits
  let lead : Int := (text.length : Int) - 1 + power
  let zeros (n : Int) : List Char := List.replicate n.toNat '0'
  if -5 ≤ lead ∧ lead ≤ 15 then
    if 0 ≤ power then String.ofList (text ++ zeros power ++ ".0".toList)
    else if 0 ≤ lead then
      let whole := lead.toNat + 1
      String.ofList (text.take whole ++ '.' :: text.drop whole)
    else String.ofList ("0.".toList ++ zeros (-lead - 1) ++ text)
  else
    let tail := if text.length = 1 then [] else '.' :: text.drop 1
    let sign := if lead < 0 then '-' else '+'
    String.ofList (text.take 1 ++ tail ++ 'e' :: sign :: Nat.toDigits 10 lead.natAbs)

/-- The written form of a value: it always shows a point or an exponent. -/
def text (x : Double) : String :=
  let magnitude := if x.magnitude = 0 then "0.0" else magnitudeText x.magnitude
  if x.negative then "-" ++ magnitude else magnitude

end ModelGraph.Double
