import Phrasebook.Number.Shortest

/-!
# Floating-point numbers in text

Numbers are written with their shortest digits, without an exponent while the exponent is of
moderate size. Two layouts are in use: the one of rendered values and the one of data documents.
-/

namespace Phrasebook.Number

/-- How the digits of a number are laid out. -/
structure Layout where
  /-- The smallest decimal exponent that is written without an exponent. -/
  smallest : Int
  /-- The largest decimal exponent that is written without an exponent. -/
  largest : Int
  /-- Whether whole numbers are marked by a zero behind a point. -/
  markWhole : Bool
  /-- The fewest digits that an exponent is written with. -/
  exponentDigits : Nat
  /-- Which of two equally near decimals is written. -/
  tie : Tie

/-- Rendered values: positional from `0.0001` up to twenty-one digits, whole numbers unmarked, and
two digits at least in an exponent. -/
def Layout.value : Layout := ⟨-4, 20, false, 2, .larger⟩

/-- Data documents: positional from `0.00001` up to sixteen digits, whole numbers marked, and no
zero in front of an exponent. -/
def Layout.document : Layout := ⟨-5, 15, true, 1, .even⟩

/-- Zeros in a row. -/
def zeros (n : Nat) : List Char := List.replicate n '0'

/-- Digits with a point behind the given number of them. -/
def pointAfter (count : Nat) (digits : List Char) : List Char :=
  digits.take count ++ '.' :: digits.drop count

/-- The exponent of a number: a sign, and zeros in front of the digits where there are too few. -/
def Layout.exponent (layout : Layout) (e : Int) : List Char :=
  let digits := Nat.toDigits 10 e.natAbs
  'e' :: (if e < 0 then '-' else '+') :: (zeros (layout.exponentDigits - digits.length) ++ digits)

/-- The text of a decimal that is not negative. -/
def Layout.decimal (layout : Layout) (d : Decimal) : List Char :=
  let digits := Nat.toDigits 10 d.digits
  -- the exponent of the first digit
  let first := d.exponent + digits.length - 1
  if layout.smallest ≤ first ∧ first ≤ layout.largest then
    if first < 0 then '0' :: '.' :: (zeros (-first - 1).toNat ++ digits)
    else if digits.length ≤ first.toNat + 1 then
      digits ++ zeros (first.toNat + 1 - digits.length) ++
        if layout.markWhole then ['.', '0'] else []
    else pointAfter (first.toNat + 1) digits
  else
    (if digits.length = 1 then digits else pointAfter 1 digits) ++
      layout.exponent first

/-- The text of a finite number. -/
def Layout.binary (layout : Layout) (b : Binary) : List Char :=
  (if b.negative then ['-'] else []) ++ layout.decimal (shortest layout.tie b.significand b.exponent)

/-- The text of a number as a rendered value. -/
def floatText (x : Float) : String :=
  match Binary.ofFloat? x with
  | some b => String.ofList (Layout.value.binary b)
  | none => if x.isNaN then "NaN" else if isNegative x then "-Inf" else "+Inf"

/-- The text of an integer. -/
def intText (n : Int) : String := toString n

end Phrasebook.Number
