/-!
# Integers in text

Integers are written in base ten with an optional sign and nothing else around or between the
digits.
-/

namespace Phrasebook.Number

/-- The value of a decimal digit. -/
def digitValue (c : Char) : Nat := c.toNat - '0'.toNat

/-- The number that digits spell, read onto the digits before them. -/
def ofDigits (digits : List Char) : Nat := digits.foldl (fun n c => 10 * n + digitValue c) 0

/-- Reads a natural number: one or more ASCII digits. -/
def readNat? (cs : List Char) : Option Nat :=
  if cs ≠ [] ∧ cs.all Char.isDigit then some (ofDigits cs) else none

/-- Reads a natural number with an optional plus sign. -/
def readUnsigned? : List Char → Option Nat
  | '+' :: cs => readNat? cs
  | cs => readNat? cs

/-- Reads an integer with an optional sign. -/
def readInt? : List Char → Option Int
  | '-' :: cs => (readNat? cs).map fun n => -(n : Int)
  | cs => (readUnsigned? cs).map fun n => (n : Int)

/-- The largest 64-bit integer. -/
def maxInt64 : Int := 9223372036854775807

/-- The smallest 64-bit integer. -/
def minInt64 : Int := -9223372036854775808

/-- Reads an integer between two bounds. -/
def readBounded? (low high : Int) (cs : List Char) : Option Int :=
  (readInt? cs).filter fun n => low ≤ n && n ≤ high

/-- Reads a 64-bit integer. -/
def readInt64? (s : String) : Option Int64 :=
  (readBounded? minInt64 maxInt64 s.toList).map Int64.ofInt

/-- The nearest 64-bit integer. -/
def clampInt64 (n : Int) : Int64 := Int64.ofInt (max minInt64 (min maxInt64 n))

theorem toInt_clampInt64 (n : Int) : (clampInt64 n).toInt = max minInt64 (min maxInt64 n) := by
  apply Int64.toInt_ofInt_of_le <;> simp only [minInt64, maxInt64] <;> omega

/-- The 64-bit form of a length. -/
def lengthInt64 (n : Nat) : Int64 := clampInt64 n

end Phrasebook.Number
