import Phrasebook.Json.Basic

/-!
# Numbers of data documents

Integers that fit into 64 bits are exact. For other numbers, as many leading digits as fit into 64
bits are scaled once by a power of ten, so the result can differ from the nearest floating-point
number in its last bit. Numbers that are too large are errors.
-/

namespace Phrasebook.Json

/-- The largest number that digits are gathered into. -/
def maxSignificand : Nat := 18446744073709551615

/-- Appends digits to a number for as long as it stays small enough. The result is the number, how
many digits were taken, and the rest. -/
def gatherDigits (significand : Nat) : List Char → Nat × Nat × List Char
  | [] => (significand, 0, [])
  | c :: cs =>
    let next := 10 * significand + Phrasebook.Number.digitValue c
    if c.isDigit ∧ next ≤ maxSignificand then
      let (result, count, rest) := gatherDigits next cs
      (result, count + 1, rest)
    else (significand, 0, c :: cs)

/-- The power of ten with the given exponent. -/
def powerOfTen (e : Nat) : Float := Float.ofScientific 1 false e

/-- The largest exponent of a power of ten. -/
def maxPower : Nat := 308

/-- Scales a number down by a power of ten, in steps if need be; the first argument bounds their
number. Three steps turn every number into zero. -/
def scaleDown : Nat → Float → Nat → Float
  | 0, x, _ => x
  | steps + 1, x, e =>
    if e ≤ maxPower then x / powerOfTen e
    else if x == 0 then x
    else scaleDown steps (x / powerOfTen maxPower) (e - maxPower)

/-- The magnitude `significand · 10 ^ exponent`, if it is not too large. -/
def scale? (significand : Nat) (exponent : Int) : Option Float :=
  let x := Float.ofNat significand
  if exponent < 0 then some (scaleDown 3 x exponent.natAbs)
  else if exponent.natAbs ≤ maxPower then
    let scaled := x * powerOfTen exponent.natAbs
    if scaled.isInf then none else some scaled
  else if significand = 0 then some x
  else none

/-- The largest exponent that is counted. -/
def maxExponent : Nat := 2147483647

/-- Reads the exponent of a number behind its mark. -/
def readPower? (significand : Nat) (start : Int) (cs : List Char) : Option (Float × List Char) :=
  let (negative, cs) :=
    match cs with
    | '+' :: cs => (false, cs)
    | '-' :: cs => (true, cs)
    | cs => (false, cs)
  let digits := cs.takeWhile Char.isDigit
  let rest := cs.dropWhile Char.isDigit
  if digits = [] then none
  else
    let e := Phrasebook.Number.ofDigits digits
    if maxExponent < e then
      if significand ≠ 0 ∧ !negative then none else some (0.0, rest)
    else (scale? significand (if negative then start - e else start + e)).map (·, rest)

/-- Reads what may follow the digits of a number: an exponent. -/
def readScaled? (significand : Nat) (exponent : Int) (cs : List Char) :
    Option (Float × List Char) :=
  match cs with
  | 'e' :: cs | 'E' :: cs => readPower? significand exponent cs
  | cs => (scale? significand exponent).map (·, cs)

/-- Reads the digits behind a point, of which there must be some, and what follows them. -/
def readFraction? (significand : Nat) (exponent : Int) (cs : List Char) :
    Option (Float × List Char) :=
  let (significand, count, rest) := gatherDigits significand cs
  let ignored := rest.takeWhile Char.isDigit
  if count = 0 ∧ ignored = [] then none
  else readScaled? significand (exponent - count) (rest.dropWhile Char.isDigit)

/-- The number of an integer of which the magnitude and the sign are given. Negative zero and what
is too small for a signed integer are floating-point numbers. -/
def ofMagnitude (negative : Bool) (n : Nat) : Number :=
  if !negative then .integer n
  else if n = 0 ∨ 9223372036854775808 < n then .float (-Float.ofNat n)
  else .integer (-(n : Int))

/-- Reads a number without its sign. A leading zero stands alone. -/
def readMagnitude? (negative : Bool) (cs : List Char) : Option (Number × List Char) :=
  let signed : Float × List Char → Number × List Char := fun (x, rest) =>
    (.float (if negative then -x else x), rest)
  let (significand, count, rest) :=
    match cs with
    | '0' :: rest => (0, 1, rest)
    | cs => gatherDigits 0 cs
  let ignored := rest.takeWhile Char.isDigit
  let exponent : Int := ignored.length
  if count = 0 ∨ (significand = 0 ∧ ignored ≠ []) then none
  else
    match rest.dropWhile Char.isDigit with
    | '.' :: after => (readFraction? significand exponent after).map signed
    | 'e' :: after | 'E' :: after => (readPower? significand exponent after).map signed
    | after =>
      if ignored = [] then some (ofMagnitude negative significand, after)
      else (scale? significand exponent).map fun x => signed (x, after)

/-- Reads a number. -/
def readNumber? : List Char → Option (Number × List Char)
  | '-' :: cs => readMagnitude? true cs
  | cs => readMagnitude? false cs

end Phrasebook.Json
