import Phrasebook.Number.Binary

/-!
# The shortest decimals of floating-point numbers

A floating-point number is written with the fewest digits that are read back as the same number,
and among those with the digits nearest to it. The numbers that are read back form an interval
whose ends lie halfway to the neighbouring floating-point numbers, and belong to it if the
significand is even.
-/

namespace Phrasebook.Number

/-- Which of two decimals that are equally near to a number is written. -/
inductive Tie where
  | larger
  | even
  deriving DecidableEq, Repr

/-- The decimal `digits · 10 ^ exponent`. -/
structure Decimal where
  digits : Nat
  exponent : Int
  deriving DecidableEq, Repr

/-- The number of decimal digits; zero has none. -/
def digitCount (n : Nat) : Nat := if n = 0 then 0 else (Nat.toDigits 10 n).length

/-- The largest `e` with `10 ^ e ≤ num / den`, for positive numbers. -/
def floorLog10 (num den : Nat) : Int :=
  if den ≤ num then (digitCount (num / den) : Int) - 1
  else -(digitCount ((den + num - 1) / num - 1) : Int)

/-- The decimal without trailing zeros; the first argument bounds their number. -/
def stripZeros : Nat → Decimal → Decimal
  | 0, d => d
  | bound + 1, d =>
    if d.digits ≠ 0 ∧ d.digits % 10 = 0 then stripZeros bound ⟨d.digits / 10, d.exponent + 1⟩ else d

/-- A positive floating-point number between the ends of the interval read back as it, all over
one denominator. -/
structure Rounding where
  value : Nat
  low : Nat
  high : Nat
  den : Nat
  inclusive : Bool

namespace Rounding

/-- The interval around `significand · 2 ^ exponent`. Below a power of two the neighbour is half as
far away, unless it is as small as numbers get. -/
def ofBinary (significand : Nat) (exponent : Int) : Rounding :=
  let narrow := significand = Nat.pow 2 52 ∧ exponent > -1074
  let scale := Nat.pow 2 exponent.toNat
  { value := 4 * significand * scale
    low := (4 * significand - if narrow then 1 else 2) * scale
    high := (4 * significand + 2) * scale
    den := 4 * Nat.pow 2 (-exponent).toNat
    inclusive := significand % 2 = 0 }

/-- Whether `n · unit / denominator` is read back as the number, where `num / den` is the unit of
a decimal grid. -/
def contains (r : Rounding) (n num den : Nat) : Bool :=
  let point := n * num * r.den
  if r.inclusive then r.low * den ≤ point && point ≤ r.high * den
  else r.low * den < point && point < r.high * den

/-- The decimal with the given exponent that is read back as the number and nearest to it. -/
def onGrid? (tie : Tie) (r : Rounding) (exponent : Int) : Option Decimal :=
  let num := Nat.pow 10 exponent.toNat
  let den := Nat.pow 10 (-exponent).toNat
  let below := r.value * den / (r.den * num)
  let above := below + 1
  -- the number and the middle between the two decimals, over one denominator
  let middle := (2 * below + 1) * (r.den * num)
  let value := 2 * (r.value * den)
  let aboveNearer := middle < value ∨ (middle = value ∧ (tie = .larger ∨ above % 2 = 0))
  match r.contains below num den, r.contains above num den with
  | true, true => some ⟨if aboveNearer then above else below, exponent⟩
  | true, false => some ⟨below, exponent⟩
  | false, true => some ⟨above, exponent⟩
  | false, false => none

/-- The first decimal found on finer and finer grids, starting with a given number of digits. -/
def search (tie : Tie) (r : Rounding) (magnitude : Int) : Nat → Nat → Decimal
  | 0, count => ⟨r.value * Nat.pow 10 count / r.den, -(count : Int)⟩
  | bound + 1, count =>
    match r.onGrid? tie (magnitude - (count : Int) + 1) with
    | some d => d
    | none => search tie r magnitude bound (count + 1)

end Rounding

/-- The shortest decimal of `significand · 2 ^ exponent`; seventeen digits are always enough. -/
def shortest (tie : Tie) (significand : Nat) (exponent : Int) : Decimal :=
  if significand = 0 then ⟨0, 0⟩
  else
    let r := Rounding.ofBinary significand exponent
    stripZeros 20 (r.search tie (floorLog10 r.value r.den) 17 1)

end Phrasebook.Number
