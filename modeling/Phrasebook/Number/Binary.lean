import Phrasebook.Number.Integer

/-!
# Floating-point numbers as integers and powers of two

A finite floating-point number is a sign, a significand and a power of two. Rounding to integers,
remainders and conversions are computed exactly on these parts, so they hold of the bits of a
number and of no particular machine instruction.
-/

namespace Phrasebook.Number

/-- The number `± significand · 2 ^ exponent`. -/
structure Binary where
  negative : Bool
  significand : Nat
  exponent : Int
  deriving DecidableEq, Repr

/-- Whether the sign of a number is set, also for zero and infinity. -/
def isNegative (x : Float) : Bool := x.toBits.toNat / Nat.pow 2 63 == 1

namespace Binary

/-- The parts of a finite number. -/
def ofFloat? (x : Float) : Option Binary :=
  let bits := x.toBits.toNat
  let fraction := bits % Nat.pow 2 52
  let biased : Nat := bits / Nat.pow 2 52 % Nat.pow 2 11
  if biased = 2047 then none
  else if biased = 0 then some ⟨isNegative x, fraction, -1074⟩
  else some ⟨isNegative x, fraction + Nat.pow 2 52, (biased : Int) - 1075⟩

/-- The bits of the magnitude of a number, provided that its significand needs no more than the
bits a floating-point number has. -/
def magnitudeBits (significand : Nat) (exponent : Int) : Nat :=
  if significand = 0 then 0
  else
    let width : Int := (significand.log2 : Int) + 1
    -- the power of two of the last bit of the result
    let last := max (exponent + width - 53) (-1074)
    let scaled :=
      if exponent ≥ last then significand * Nat.pow 2 (exponent - last).toNat
      else significand / Nat.pow 2 (last - exponent).toNat
    if scaled < Nat.pow 2 52 then scaled
    else scaled - Nat.pow 2 52 + (last + 1075).toNat * Nat.pow 2 52

/-- The floating-point number with the given parts, provided that they are those of one. -/
def toFloat (b : Binary) : Float :=
  let sign := if b.negative then Nat.pow 2 63 else 0
  Float.ofBits (UInt64.ofNat (sign + magnitudeBits b.significand b.exponent))

/-- The integer part of the magnitude. -/
def floorMagnitude (b : Binary) : Nat :=
  if 0 ≤ b.exponent then b.significand * Nat.pow 2 b.exponent.toNat
  else b.significand / Nat.pow 2 (-b.exponent).toNat

/-- The integer nearest to the magnitude, halves going up. -/
def roundMagnitude (b : Binary) : Nat :=
  if 0 ≤ b.exponent then b.significand * Nat.pow 2 b.exponent.toNat
  else
    let unit := Nat.pow 2 (-b.exponent).toNat
    (2 * b.significand + unit) / (2 * unit)

/-- An integer with the sign of a number. -/
def withSign (b : Binary) (magnitude : Nat) : Int :=
  if b.negative then -(magnitude : Int) else magnitude

end Binary

/-- The integer part of a number, saturated to 64 bits; zero if it is not a number. -/
def truncateToInt64 (x : Float) : Int64 :=
  match Binary.ofFloat? x with
  | some b => clampInt64 (b.withSign b.floorMagnitude)
  | none =>
    if x.isNaN then 0 else clampInt64 (if isNegative x then minInt64 else maxInt64)

/-- The integer part of a number, with its sign. -/
def truncate (x : Float) : Float :=
  match Binary.ofFloat? x with
  | some b => if 0 ≤ b.exponent then x else Binary.toFloat ⟨b.negative, b.floorMagnitude, 0⟩
  | none => x

/-- The nearest integer, halves going away from zero. -/
def round (x : Float) : Float :=
  match Binary.ofFloat? x with
  | some b => if 0 ≤ b.exponent then x else Binary.toFloat ⟨b.negative, b.roundMagnitude, 0⟩
  | none => x

/-- What a number exceeds its integer part by. -/
def fractionalPart (x : Float) : Float := x - truncate x

/-- The remainder of a division toward zero, which has the sign of the dividend. -/
def remainder (x y : Float) : Float :=
  match Binary.ofFloat? x, Binary.ofFloat? y with
  | some a, some b =>
    if b.significand = 0 then 0.0 / 0.0
    else
      let last := min a.exponent b.exponent
      let dividend := a.significand * Nat.pow 2 (a.exponent - last).toNat
      let divisor := b.significand * Nat.pow 2 (b.exponent - last).toNat
      Binary.toFloat ⟨a.negative, dividend % divisor, last⟩
  | some _, none => if y.isNaN then y else x
  | none, _ => 0.0 / 0.0

/-- The floating-point number nearest to a 64-bit integer. -/
def ofInt64 (n : Int64) : Float := Float.ofInt n.toInt

end Phrasebook.Number
