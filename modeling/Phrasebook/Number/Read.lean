import Phrasebook.Number.Shortest

/-!
# Reading floating-point numbers

A number has an optional sign, digits with an optional point among, before or behind them, and an
optional exponent. Infinity and the undefined number are written by name in any case. The result is
the floating-point number nearest to what is written.
-/

namespace Phrasebook.Number

/-- A number as it is written: `± digits · 10 ^ exponent`. -/
structure Written where
  negative : Bool
  decimal : Decimal

/-- Splits digits off the front. -/
def spanDigits (cs : List Char) : List Char × List Char :=
  (cs.takeWhile Char.isDigit, cs.dropWhile Char.isDigit)

/-- Reads the exponent at the end of a number. Without one, it is zero. -/
def readExponent? : List Char → Option Int
  | [] => some 0
  | c :: cs => if c = 'e' ∨ c = 'E' then readInt? cs else none

/-- Reads a number without its sign. -/
def readDecimal? (cs : List Char) : Option Decimal :=
  let (whole, rest) := spanDigits cs
  let (fraction, rest) :=
    match rest with
    | '.' :: after => spanDigits after
    | _ => ([], rest)
  if whole = [] ∧ fraction = [] then none
  else
    (readExponent? rest).map fun e =>
      ⟨ofDigits (whole ++ fraction), e - (fraction.length : Int)⟩

/-- The value of a decimal that is too large or too small for a floating-point number of the given
range of decimal exponents, or the decimal if it may be in range. -/
def Decimal.inRange? (d : Decimal) (smallest largest : Int) : Except Float Decimal :=
  let first := d.exponent + (digitCount d.digits : Int)
  if d.digits = 0 ∨ first < smallest then .error 0.0
  else if largest < first then .error (1.0 / 0.0)
  else .ok d

/-- The floating-point number nearest to a decimal. -/
def Decimal.toFloat (d : Decimal) : Float :=
  match d.inRange? (-330) 320 with
  | .ok d => Float.ofScientific d.digits (d.exponent < 0) d.exponent.natAbs
  | .error x => x

/-- The single-precision number nearest to a decimal. -/
def Decimal.toSingle (d : Decimal) : Float :=
  match d.inRange? (-60) 60 with
  | .ok d => (Float32.ofScientific d.digits (d.exponent < 0) d.exponent.natAbs).toFloat
  | .error x => x

/-- Reads a number, given how a decimal is rounded. -/
def readWith? (round : Decimal → Float) (s : String) : Option Float :=
  let (negative, cs) :=
    match s.toList with
    | '-' :: cs => (true, cs)
    | '+' :: cs => (false, cs)
    | cs => (false, cs)
  let named :=
    match String.ofList (cs.map Char.toLower) with
    | "inf" | "infinity" => some (1.0 / 0.0)
    | "nan" => some (0.0 / 0.0)
    | _ => none
  (named.or ((readDecimal? cs).map round)).map fun x => if negative then -x else x

/-- Reads a floating-point number. -/
def readFloat? (s : String) : Option Float := readWith? Decimal.toFloat s

/-- Reads a single-precision number. -/
def readSingle? (s : String) : Option Float := readWith? Decimal.toSingle s

end Phrasebook.Number
