import Phrasebook.Number.Integer

/-!
# Durations

A duration is a number of nanoseconds of either sign, within the range of milliseconds that 64 bits
can count on both sides of zero. Its text gives hours, minutes and seconds, and shorter durations
in the largest unit that fits.
-/

namespace Phrasebook

/-- The longest duration, in nanoseconds. -/
def Duration.maxNanos : Int := 9223372036854775807 * 1000000

/-- A duration. -/
@[ext]
structure Duration where
  nanos : Int
  lower : -Duration.maxNanos ≤ nanos
  upper : nanos ≤ Duration.maxNanos
  deriving DecidableEq

namespace Duration

/-- The duration of a number of nanoseconds, if it is in range. -/
def ofNanos? (nanos : Int) : Option Duration :=
  if h : -maxNanos ≤ nanos ∧ nanos ≤ maxNanos then some ⟨nanos, h.1, h.2⟩ else none

/-- The longest duration. -/
def longest : Duration := ⟨maxNanos, by decide, by decide⟩

/-- The opposite duration. -/
def neg (d : Duration) : Duration :=
  ⟨-d.nanos, by have := d.upper; omega, by have := d.lower; omega⟩

/-- The length of a duration without its sign. -/
def abs (d : Duration) : Duration :=
  ⟨d.nanos.natAbs, by have := d.lower; have := d.upper; omega,
    by have := d.lower; have := d.upper; omega⟩

@[simp] theorem neg_nanos (d : Duration) : d.neg.nanos = -d.nanos := rfl

@[simp] theorem abs_nanos (d : Duration) : d.abs.nanos = d.nanos.natAbs := rfl

@[simp] theorem neg_neg (d : Duration) : d.neg.neg = d := by
  ext
  simp

/-- The number of nanoseconds, saturated to 64 bits. -/
def toInt64 (d : Duration) : Int64 := Number.clampInt64 d.nanos

/-- The nanoseconds of a second. -/
def second : Nat := 1000000000

/-- The nanoseconds of a minute. -/
def minute : Nat := 60 * second

/-- The nanoseconds of an hour. -/
def hour : Nat := 60 * minute

/-- The digits of a number, filled up with zeros on the left. -/
def padded (width n : Nat) : List Char :=
  let digits := Nat.toDigits 10 n
  List.replicate (width - digits.length) '0' ++ digits

/-- A fraction of a second or of a smaller unit: the number of units of which `10 ^ places` make
one, written without zeros at the end. -/
def decimal (n places : Nat) : List Char :=
  let whole := Nat.toDigits 10 (n / Nat.pow 10 places)
  let fraction := n % Nat.pow 10 places
  if fraction = 0 then whole
  else whole ++ '.' :: ((padded places fraction).reverse.dropWhile (· == '0')).reverse

/-- The text of a number of nanoseconds that is not zero, without its sign. -/
def magnitudeText (n : Nat) : List Char :=
  if n < 1000 then decimal n 0 ++ ['n', 's']
  else if n < 1000000 then decimal n 3 ++ ['µ', 's']
  else if n < second then decimal n 6 ++ ['m', 's']
  else
    let hours := n / hour
    let minutes := n % hour / minute
    let seconds := decimal (n % minute) 9 ++ ['s']
    if 0 < hours then Nat.toDigits 10 hours ++ 'h' :: (Nat.toDigits 10 minutes ++ 'm' :: seconds)
    else if 0 < minutes then Nat.toDigits 10 minutes ++ 'm' :: seconds
    else seconds

/-- The characters of a duration. -/
def chars (d : Duration) : List Char :=
  if d.nanos = 0 then ['0', 's']
  else (if d.nanos < 0 then ['-'] else []) ++ magnitudeText d.nanos.natAbs

/-- The text of a duration. -/
def text (d : Duration) : String := String.ofList d.chars

end Duration

end Phrasebook
