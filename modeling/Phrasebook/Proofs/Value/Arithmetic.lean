import Mathlib
import Phrasebook.Value.Arithmetic

/-!
# Arithmetic of integers

Unless one of them is a floating-point number, values meet in an operation as 64-bit integers. These
stand for numbers modulo `2 ^ 64` (`Number.Wraps`): sums, differences, products and opposites wrap
around, and so does the one quotient that is out of range. Division leaves a remainder that is
nearer to zero than the divisor and has the sign of the dividend (`Number.Division`).

Durations have opposites of their own. Their range is the same on both sides of zero, so the
opposite of every duration is exact.

Main statement: `Value.arithmetic_wraps`.
-/

namespace Phrasebook

namespace Number

variable {x y n : Int64} {z : Int}

/-- A 64-bit integer stands for a number up to multiples of `2 ^ 64`. -/
def Wraps (n : Int64) (z : Int) : Prop := n.toInt ≡ z [ZMOD 2 ^ 64]

theorem wraps_of_toInt (h : n.toInt = z.bmod (2 ^ 64)) : Wraps n z := by
  rw [Wraps, Int.ModEq, h]
  exact Int.bmod_emod

/-- Only one integer stands for a number. -/
theorem wraps_iff : Wraps n z ↔ n = .ofInt z := by
  constructor
  · intro h
    have hemod : n.toInt % Int64.size = z % Int64.size := h
    apply Int64.toInt_inj.mp
    rw [← Int64.ofInt_toInt n, Int64.toInt_ofInt, Int64.toInt_ofInt, ← Int.emod_bmod, hemod,
      Int.emod_bmod]
  · rintro rfl
    exact wraps_of_toInt Int64.toInt_ofInt

theorem wraps_add (x y : Int64) : Wraps (x + y) (x.toInt + y.toInt) :=
  wraps_of_toInt (Int64.toInt_add x y)

theorem wraps_sub (x y : Int64) : Wraps (x - y) (x.toInt - y.toInt) :=
  wraps_of_toInt (Int64.toInt_sub x y)

theorem wraps_mul (x y : Int64) : Wraps (x * y) (x.toInt * y.toInt) :=
  wraps_of_toInt (Int64.toInt_mul x y)

theorem wraps_neg (x : Int64) : Wraps (-x) (-x.toInt) := wraps_of_toInt (Int64.toInt_neg x)

/-- A quotient and a remainder of integers. Together with the divisor they make up the dividend, and
the remainder is nearer to zero than the divisor, on the side of the dividend. -/
structure Division (x y q r : Int64) : Prop where
  dividend : q.toInt * y.toInt + r.toInt ≡ x.toInt [ZMOD 2 ^ 64]
  abs_lt : |r.toInt| < |y.toInt|
  sign : r = 0 ∨ r.toInt.sign = x.toInt.sign

theorem division (h : y ≠ 0) : Division x y (x / y) (x % y) where
  dividend := by
    have hquotient : (x / y).toInt ≡ x.toInt.tdiv y.toInt [ZMOD 2 ^ 64] :=
      wraps_of_toInt (Int64.toInt_div x y)
    calc (x / y).toInt * y.toInt + (x % y).toInt
        = (x / y).toInt * y.toInt + x.toInt.tmod y.toInt := by rw [Int64.toInt_mod]
      _ ≡ x.toInt.tdiv y.toInt * y.toInt + x.toInt.tmod y.toInt [ZMOD 2 ^ 64] :=
          (hquotient.mul_right _).add_right _
      _ = x.toInt := Int.tdiv_mul_add_tmod x.toInt y.toInt
  abs_lt := by
    have hy : 0 < y.toInt.natAbs := Int.natAbs_pos.mpr fun hzero => h (Int64.toInt_inj.mp hzero)
    rw [Int64.toInt_mod, Int.abs_eq_natAbs, Int.abs_eq_natAbs, Int.natAbs_tmod]
    exact Int.ofNat_lt.mpr (Nat.mod_lt _ hy)
  sign := by
    have hsign := Int.sign_tmod x.toInt y.toInt
    rw [← Int64.toInt_mod] at hsign
    split at hsign
    · exact .inl (Int64.toInt_inj.mp (Int.sign_eq_zero_iff_zero.mp hsign))
    · exact .inr hsign

end Number

/-- The opposite of a duration is a duration, however long it is. -/
theorem Duration.ofNanos?_neg (d : Duration) : ofNanos? (0 - d.nanos) = some d.neg := by
  have hlower := d.lower
  have hupper := d.upper
  rw [Int.zero_sub, ofNanos?, dif_pos ⟨by omega, by omega⟩]
  rfl

namespace Value

open Number (Wraps Division)

variable {a b : Value}

/-- Without a floating-point number among them, values meet as integers. -/
theorem operands_of_ne_float (ha : a.kind ≠ .float) (hb : b.kind ≠ .float) :
    operands a b = .ints a.toInt b.toInt := by
  have hfloat : ∀ v : Value, v.kind ≠ .float → v.isFloat = false := by
    intro v hv
    cases v <;> first | rfl | exact absurd rfl hv
  rw [operands, hfloat a ha, hfloat b hb]
  rfl

theorem div_of_ne_float (ha : a.kind ≠ .float) (hb : b.kind ≠ .float) :
    a.div b = if b.toInt = 0 then .int 0 else .int (a.toInt / b.toInt) := by
  rw [div, operands_of_ne_float ha hb]

theorem neg_of_ne (hfloat : a.kind ≠ .float) (hduration : a.kind ≠ .duration) :
    a.neg = .int (-a.toInt) := by
  cases a with
  | float => exact absurd rfl hfloat
  | duration => exact absurd rfl hduration
  | _ => rfl

/-- Values other than floating-point numbers are computed with as integers that wrap around; by zero
they are divided to zero, and otherwise with a remainder on the side of the dividend. The opposite
of a value wraps around as well, unless that is a duration, which has an exact opposite. -/
theorem arithmetic_wraps (ha : a.kind ≠ .float) (hb : b.kind ≠ .float) :
    (a.isText = false → b.isText = false →
      (∃ n, a.add b = .int n ∧ Wraps n (a.toInt.toInt + b.toInt.toInt)) ∧
      ∃ n, a.mul b = .int n ∧ Wraps n (a.toInt.toInt * b.toInt.toInt)) ∧
    (∃ n, a.sub b = .int n ∧ Wraps n (a.toInt.toInt - b.toInt.toInt)) ∧
    (b.toInt = 0 → a.div b = .int 0 ∧ a.mod b = .int 0) ∧
    (b.toInt ≠ 0 → ∃ q r, a.div b = .int q ∧ a.mod b = .int r ∧ Division a.toInt b.toInt q r) ∧
    (a.kind ≠ .duration → ∃ n, a.neg = .int n ∧ Wraps n (-a.toInt.toInt)) ∧
    ∀ d : Duration, Duration.ofNanos? (0 - d.nanos) = some d.neg ∧
      (duration d).neg = .duration d.neg ∧ (duration d).neg.neg = .duration d := by
  have hoperands := operands_of_ne_float ha hb
  refine ⟨fun hta htb => ⟨⟨_, ?_, Number.wraps_add _ _⟩, ⟨_, ?_, Number.wraps_mul _ _⟩⟩,
    ⟨_, ?_, Number.wraps_sub _ _⟩, fun hzero => ⟨?_, ?_⟩,
    fun hne => ⟨_, _, ?_, ?_, Number.division hne⟩,
    fun hduration => ⟨_, neg_of_ne ha hduration, Number.wraps_neg _⟩,
    fun d => ⟨d.ofNanos?_neg, rfl, ?_⟩⟩
  · simp [add, hta, htb, hoperands]
  · simp [mul, hta, htb, hoperands]
  · rw [sub, hoperands]
  · rw [div_of_ne_float ha hb, if_pos hzero]
  · rw [mod, if_pos hzero]
  · rw [div_of_ne_float ha hb, if_neg hne]
  · rw [mod, if_neg hne]
  · simp [neg]

/-- The one quotient out of range, of the smallest integer and `-1`, wraps around. -/
theorem arithmetic_wraps_of_smallest :
    (int Int64.minValue).div (text "-1") = .int Int64.minValue ∧
      (int Int64.minValue).mod (text "-1") = .int 0 ∧
      Division Int64.minValue (text "-1").toInt Int64.minValue 0 := by
  have hdiv : (int Int64.minValue).div (text "-1") = .int Int64.minValue := rfl
  have hmod : (int Int64.minValue).mod (text "-1") = .int 0 := rfl
  obtain ⟨q, r, hq, hr, hdivision⟩ :=
    (arithmetic_wraps (a := int Int64.minValue) (b := text "-1") (by decide) (by decide)).2.2.2.1
      (by decide)
  cases hdiv.symm.trans hq
  cases hmod.symm.trans hr
  exact ⟨hdiv, hmod, hdivision⟩

end Value

end Phrasebook
