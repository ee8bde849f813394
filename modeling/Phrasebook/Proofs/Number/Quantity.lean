import Mathlib
import Phrasebook.Number.Read
import Phrasebook.Proofs.Number.Digits

/-!
# Decimal numbers in text

A number without a sign is written by its digits, with a point in front of those of the fraction. It
is read as the rational number that the digits stand for (`Number.readDecimal?_chars`).
-/

namespace Phrasebook

namespace Number

/-- The rational number that a decimal stands for. -/
def Decimal.value (d : Decimal) : ℚ := d.digits * 10 ^ d.exponent

/-- A decimal number as it is written: digits, and perhaps more of them behind a point. -/
structure Quantity where
  whole : Nat
  fraction : List Char

namespace Quantity

/-- The characters of a decimal number. Without digits behind it, there is no point. -/
def chars (q : Quantity) : List Char :=
  Nat.toDigits 10 q.whole ++ if q.fraction = [] then [] else '.' :: q.fraction

/-- The rational number that is written. -/
def value (q : Quantity) : ℚ := q.whole + ofDigits q.fraction / 10 ^ q.fraction.length

/-- At most the given number of digits stand behind the point, and the last of them is not zero. -/
structure Trimmed (q : Quantity) (places : Nat) : Prop where
  digits : q.fraction.all Char.isDigit
  length : q.fraction.length ≤ places
  last : q.fraction.getLast? ≠ some '0'

end Quantity

theorem ofDigits_append (cs ds : List Char) :
    ofDigits (cs ++ ds) = 10 ^ ds.length * ofDigits cs + ofDigits ds :=
  (Nat.ofDigitChars_append 0).trans Nat.ofDigitChars_eq_ofDigitChars_zero

theorem ofDigits_toDigits (n : Nat) : ofDigits (Nat.toDigits 10 n) = n :=
  Nat.ofDigitChars_ten_toDigits

theorem ofDigits_zeros (n : Nat) : ofDigits (List.replicate n '0') = 0 :=
  Nat.ofDigitChars_replicate_zero.trans (Nat.mul_zero _)

theorem spanDigits_append {cs : List Char} (rest : List Char) (hcs : cs.all Char.isDigit)
    (hrest : ∀ c ∈ rest.head?, c.isDigit = false) : spanDigits (cs ++ rest) = (cs, rest) := by
  have hall : ∀ c ∈ cs, c.isDigit = true := List.all_eq_true.mp hcs
  have htake : rest.takeWhile Char.isDigit = [] := by
    cases rest with
    | nil => rfl
    | cons c rest => simp [hrest c rfl]
  have hdrop : rest.dropWhile Char.isDigit = rest := by
    cases rest with
    | nil => rfl
    | cons c rest => simp [hrest c rfl]
  rw [spanDigits, List.takeWhile_append_of_pos hall, List.dropWhile_append_of_pos hall, htake,
    hdrop, List.append_nil]

theorem all_isDigit_toDigits (n : Nat) : (Nat.toDigits 10 n).all Char.isDigit :=
  List.all_eq_true.mpr fun _ => isDigit_of_mem_toDigits

/-- A decimal number is read as the number that is written. -/
theorem readDecimal?_chars {q : Quantity} (hq : q.fraction.all Char.isDigit) :
    ∃ d, readDecimal? q.chars = some d ∧ d.value = q.value := by
  have hwhole : Nat.toDigits 10 q.whole ≠ [] := Nat.toDigits_ne_nil
  by_cases hempty : q.fraction = []
  · have hspan := spanDigits_append [] (all_isDigit_toDigits q.whole) (by simp)
    refine ⟨⟨q.whole, 0⟩, ?_, ?_⟩
    · rw [List.append_nil] at hspan
      simp [readDecimal?, Quantity.chars, hempty, hspan, hwhole, readExponent?, ofDigits_toDigits]
    · simp [Decimal.value, Quantity.value, hempty, ofDigits]
  · have hspan := spanDigits_append ('.' :: q.fraction) (all_isDigit_toDigits q.whole) (by simp)
    have hfraction := spanDigits_append [] hq (by simp)
    refine ⟨⟨10 ^ q.fraction.length * q.whole + ofDigits q.fraction, -q.fraction.length⟩, ?_, ?_⟩
    · rw [List.append_nil] at hfraction
      simp [readDecimal?, Quantity.chars, hempty, hspan, hfraction, readExponent?, ofDigits_append,
        ofDigits_toDigits]
    · have hpow : (10 : ℚ) ^ q.fraction.length ≠ 0 := by positivity
      simp only [Decimal.value, Quantity.value, zpow_neg, zpow_natCast]
      push_cast
      field_simp

end Number

end Phrasebook
