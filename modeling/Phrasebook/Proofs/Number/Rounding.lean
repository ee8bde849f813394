import Mathlib

/-!
# Rounding to the nearest floating-point number

The result of an operation on floating-point numbers is the exact result, rounded to a significand
of 53 bits. What matters of that is stated without the bits (`Rounds`): the rounded number is on the
same side of each number with such a significand, and the relative error is small. So a quotient
that is rounded reaches a number with a short significand if and only if the dividend reaches the
product (`Rounds.le_iff`), although the quotient itself is not exact.
-/

namespace Phrasebook.Number

open Float.Model Float.Model.UnpackedFloat

/-- A number that is not negative and has no more binary digits than a significand. -/
def Short (x : ℚ) : Prop := ∃ (m : ℕ) (e : ℤ), m < 2 ^ 53 ∧ x = m * 2 ^ e

theorem two_zpow_pos (e : ℤ) : (0 : ℚ) < 2 ^ e := zpow_pos (by norm_num) e

/-- A power of two is a natural number in multiples of a smaller one. -/
theorem mul_two_zpow {i e : ℤ} (h : i ≤ e) (m : ℕ) :
    (m : ℚ) * 2 ^ e = (m * 2 ^ (e - i).toNat : ℕ) * 2 ^ i := by
  have hexponent : e = ((e - i).toNat : ℤ) + i := by omega
  conv_lhs => rw [hexponent, zpow_add₀ (by norm_num), zpow_natCast]
  push_cast
  ring

namespace Short

variable {w a : ℚ}

theorem nonneg (h : Short w) : 0 ≤ w := by
  obtain ⟨m, e, -, rfl⟩ := h
  exact mul_nonneg (Nat.cast_nonneg m) (two_zpow_pos e).le

theorem of_le {m : ℕ} (e : ℤ) (hm : m ≤ 2 ^ 53) : Short (m * 2 ^ e) := by
  rcases Nat.lt_or_eq_of_le hm with hlt | rfl
  · exact ⟨m, e, hlt, rfl⟩
  · refine ⟨2 ^ 52, e + 1, by norm_num, ?_⟩
    rw [zpow_add₀ (by norm_num)]
    push_cast
    ring

theorem natCast {n : ℕ} (h : n ≤ 2 ^ 53) : Short n := by
  simpa using of_le 0 h

theorem of_eq_mul {n m i : ℕ} (h : n = m * 2 ^ i) (hm : m ≤ 2 ^ 53) : Short n := by
  subst h
  simpa using of_le i hm

/-- Two short numbers that differ are apart from each other. -/
theorem lt_of_lt (ha : Short a) (hw : Short w) (h : a < w) : a * (2 ^ 53 + 1) < w * 2 ^ 53 := by
  obtain ⟨m, e, hm, rfl⟩ := ha
  obtain ⟨k, j, hk, rfl⟩ := hw
  -- Both are multiples of the smaller one of their powers of two.
  have apart : ∀ {i : ℤ} {m k : ℕ}, (m : ℚ) * 2 ^ i < k * 2 ^ i → m < 2 ^ 53 →
      (m : ℚ) * 2 ^ i * (2 ^ 53 + 1) < k * 2 ^ i * 2 ^ 53 := by
    intro i m k hlt hm
    have hpos := two_zpow_pos i
    have hmk : m < k := by exact_mod_cast lt_of_mul_lt_mul_right hlt hpos.le
    have hnat : m * (2 ^ 53 + 1) < k * 2 ^ 53 := by omega
    calc (m : ℚ) * 2 ^ i * (2 ^ 53 + 1) = (m * (2 ^ 53 + 1) : ℕ) * 2 ^ i := by push_cast; ring
      _ < (k * 2 ^ 53 : ℕ) * 2 ^ i := by
        exact mul_lt_mul_of_pos_right (by exact_mod_cast hnat) hpos
      _ = k * 2 ^ i * 2 ^ 53 := by push_cast; ring
  rcases le_total e j with hej | hje
  · rw [mul_two_zpow hej k] at h ⊢
    exact apart h hm
  · rw [mul_two_zpow hje m] at h ⊢
    refine apart h (lt_trans ?_ hk)
    exact_mod_cast lt_of_mul_lt_mul_right h (two_zpow_pos j).le

/-- There is no short number between a full significand and the next one. -/
theorem succ_le (hw : Short w) {m : ℕ} {e : ℤ} (hm : 2 ^ 52 ≤ m) (h : (m : ℚ) * 2 ^ e < w) :
    ((m + 1 : ℕ) : ℚ) * 2 ^ e ≤ w := by
  obtain ⟨k, j, hk, rfl⟩ := hw
  rcases le_or_gt e j with hej | hje
  · rw [mul_two_zpow hej k] at h ⊢
    have hlt : m < k * 2 ^ (j - e).toNat := by
      exact_mod_cast lt_of_mul_lt_mul_right h (two_zpow_pos e).le
    exact mul_le_mul_of_nonneg_right (by exact_mod_cast hlt) (two_zpow_pos e).le
  · rw [mul_two_zpow hje.le m] at h
    have hlt : m * 2 ^ (e - j).toNat < k := by
      exact_mod_cast lt_of_mul_lt_mul_right h (two_zpow_pos j).le
    have hpow : 2 ^ 1 ≤ 2 ^ (e - j).toNat := Nat.pow_le_pow_right (by norm_num) (by omega)
    have hprod := Nat.mul_le_mul hm hpow
    omega

end Short

/-- A number is rounded to a short one that is not further away than needed. -/
structure Rounds (x y : ℚ) : Prop where
  short : Short y
  le_of_le : ∀ {w : ℚ}, Short w → w ≤ x → w ≤ y
  ge_of_ge : ∀ {w : ℚ}, Short w → x ≤ w → y ≤ w
  error : |y - x| * 2 ^ 53 ≤ x

namespace Rounds

variable {x y a c j : ℚ}

/-- A number is rounded to one of the two next to it that have a full significand. -/
theorem of_grid {m r : ℕ} {e : ℤ} (hm : 2 ^ 52 ≤ m) (hm' : m < 2 ^ 53) (hlow : m * 2 ^ e ≤ x)
    (hhigh : x < (m + 1 : ℕ) * 2 ^ e) (hr : r = m ∨ r = m + 1)
    (herror : |r * 2 ^ e - x| ≤ 2 ^ e / 2) : Rounds x (r * 2 ^ e) := by
  have hpos := two_zpow_pos e
  have hunit : ((m + 1 : ℕ) : ℚ) * 2 ^ e = m * 2 ^ e + 2 ^ e := by push_cast; ring
  refine ⟨.of_le e (by omega), ?_, ?_, ?_⟩
  · intro w hw hle
    have hm : w ≤ m * 2 ^ e := by
      by_contra hlt
      exact absurd (hw.succ_le hm (not_le.mp hlt)) (not_le.mpr (lt_of_le_of_lt hle hhigh))
    refine le_trans hm (mul_le_mul_of_nonneg_right ?_ hpos.le)
    rcases hr with rfl | rfl <;> simp
  · intro w hw hge
    rcases hr with rfl | rfl
    · exact le_trans hlow hge
    · rcases eq_or_lt_of_le hlow with heq | hlt
      · -- An exact number is not rounded up.
        rw [← heq, hunit, add_sub_cancel_left, abs_of_pos hpos] at herror
        linarith
      · exact hw.succ_le hm (lt_of_lt_of_le hlt hge)
  · have hx : (2 : ℚ) ^ 52 * 2 ^ e ≤ x :=
      le_trans (mul_le_mul_of_nonneg_right (by exact_mod_cast hm) hpos.le) hlow
    linarith

theorem nonneg (h : Rounds x y) : 0 ≤ y := h.short.nonneg

theorem eq_of_short (h : Rounds x y) (hx : Short x) : y = x :=
  le_antisymm (h.ge_of_ge hx le_rfl) (h.le_of_le hx le_rfl)

theorem mul_le (h : Rounds x y) : y * 2 ^ 53 ≤ x * (2 ^ 53 + 1) := by
  have herror := h.error
  have hle := le_abs_self (y - x)
  linarith

theorem le_two_pow {i : ℕ} (h : Rounds x y) (hx : x ≤ 2 ^ i) : y ≤ 2 ^ i := by
  refine h.ge_of_ge ?_ hx
  have hshort := Short.of_le (m := 1) i (by norm_num)
  rwa [Nat.cast_one, one_mul, zpow_natCast] at hshort

theorem near {i : ℕ} (h : Rounds x y) (hx : x ≤ 2 ^ (53 + i)) : |y - x| ≤ 2 ^ i := by
  have herror := h.error
  rw [pow_add, mul_comm] at hx
  exact le_of_mul_le_mul_right (le_trans herror hx) (by norm_num)

/-- A rounded quotient reaches a short number where the dividend reaches the product. -/
theorem le_iff (h : Rounds (a / c) y) (ha : Short a) (hc : 0 < c) (hj : Short j)
    (hjc : Short (j * c)) : j ≤ y ↔ j * c ≤ a := by
  constructor
  · contrapose!
    intro hlt
    have hapart := ha.lt_of_lt hjc hlt
    have herror := h.mul_le
    rw [div_mul_eq_mul_div, le_div_iff₀ hc] at herror
    have hprod : y * 2 ^ 53 * c < j * 2 ^ 53 * c := by linarith
    have hlt := lt_of_mul_lt_mul_right hprod hc.le
    exact lt_of_mul_lt_mul_right hlt (by norm_num)
  · intro hle
    exact h.le_of_le hj ((le_div_iff₀ hc).mpr hle)

/-- The integer part of a rounded quotient, again divided, is exact, if the multiples of the divisor
up to the dividend are short. -/
theorem floor_div {b c k : ℕ} (h : Rounds (a / c) y) (ha : Short a) (hc : 0 < c) (hk : 0 < k)
    (hb : a < (b * (k * c) : ℕ))
    (hshort : ∀ j ≤ b, Short (j * k : ℕ) ∧ Short (j * (k * c) : ℕ)) :
    ⌊y⌋₊ / k = ⌊a⌋₊ / (k * c) := by
  have hle : ∀ j ≤ b, j ≤ ⌊y⌋₊ / k ↔ j ≤ ⌊a⌋₊ / (k * c) := by
    intro j hj
    obtain ⟨hmultiple, hproduct⟩ := hshort j hj
    have hiff := h.le_iff ha (by exact_mod_cast hc) hmultiple (by
      rw [← mul_assoc] at hproduct
      exact_mod_cast hproduct)
    rw [Nat.le_div_iff_mul_le hk, Nat.le_div_iff_mul_le (Nat.mul_pos hk hc),
      Nat.le_floor_iff h.nonneg, Nat.le_floor_iff ha.nonneg, hiff, ← mul_assoc]
    push_cast
    rfl
  have hdividend : ⌊a⌋₊ / (k * c) < b := by
    rw [Nat.div_lt_iff_lt_mul (Nat.mul_pos hk hc), Nat.floor_lt ha.nonneg]
    exact hb
  have hquotient : ⌊y⌋₊ / k < b := by
    by_contra hge
    exact absurd ((hle b le_rfl).mp (not_lt.mp hge)) (not_le.mpr hdividend)
  exact le_antisymm ((hle _ hquotient.le).mp le_rfl) ((hle _ hdividend.le).mpr le_rfl)

end Rounds

/-- A significand with the round bit behind it. -/
def withRoundBit (em : ExtendedMantissa) : ℚ := em.mantissa + if em.roundBit then 1 / 2 else 0

/-- What the residual bits say of a number, in units of the significand: it is exactly what the
significand and the round bit say, or, with the sticky bit, between that and the next half. -/
def Represents (em : ExtendedMantissa) (x : ℚ) : Prop :=
  if em.stickyBit then withRoundBit em < x ∧ x < withRoundBit em + 1 / 2 else x = withRoundBit em

theorem ofMantissaAndAccuracy_mantissa (m : ℕ) (accuracy : Accuracy) :
    (ExtendedMantissa.ofMantissaAndAccuracy m accuracy).mantissa = m := by
  unfold ExtendedMantissa.ofMantissaAndAccuracy
  split <;> rfl

theorem represents_exact (m : ℕ) : Represents (.ofMantissaAndAccuracy m .exact) m := by
  simp [Represents, withRoundBit, ExtendedMantissa.ofMantissaAndAccuracy]

/-- The residual bits of a quotient come from the remainder. -/
theorem represents_fraction (m : ℕ) {num den : ℕ} (h : num < den) :
    Represents (.ofMantissaAndAccuracy m (accuracyOfFraction num den)) (m + num / den) := by
  have hden : (0 : ℚ) < den := by exact_mod_cast Nat.zero_lt_of_lt h
  have hlt : (num : ℚ) / den < 1 := (div_lt_one hden).mpr (by exact_mod_cast h)
  unfold accuracyOfFraction
  split
  · next hzero => simpa [hzero] using represents_exact m
  · next hne =>
      have hpos : (0 : ℚ) < num / den := div_pos (by exact_mod_cast Nat.pos_of_ne_zero hne) hden
      cases hcompare : compare (2 * num) den with
      | lt =>
          have hhalf : (num : ℚ) / den < 1 / 2 := by
            rw [div_lt_div_iff₀ hden two_pos, one_mul, mul_comm]
            exact_mod_cast Nat.compare_eq_lt.mp hcompare
          simp only [Represents, withRoundBit, ExtendedMantissa.ofMantissaAndAccuracy]
          constructor <;> norm_num at * <;> linarith
      | eq =>
          have hhalf : (num : ℚ) / den = 1 / 2 := by
            rw [div_eq_div_iff hden.ne' two_ne_zero, one_mul, mul_comm]
            exact_mod_cast Nat.compare_eq_eq.mp hcompare
          simp [Represents, withRoundBit, ExtendedMantissa.ofMantissaAndAccuracy, hhalf]
      | gt =>
          have hhalf : 1 / 2 < (num : ℚ) / den := by
            rw [div_lt_div_iff₀ two_pos hden, one_mul, mul_comm (num : ℚ)]
            exact_mod_cast Nat.compare_eq_gt.mp hcompare
          simp only [Represents, withRoundBit, ExtendedMantissa.ofMantissaAndAccuracy]
          constructor <;> norm_num at * <;> linarith

theorem roundedMantissa_eq (em : ExtendedMantissa) :
    em.roundedMantissa =
      if em.roundBit then em.mantissa + (if em.stickyBit then 1 else em.mantissa % 2)
      else em.mantissa := by
  obtain ⟨m, round, sticky⟩ := em
  cases round <;> cases sticky <;> rfl

namespace Represents

variable {em : ExtendedMantissa} {x : ℚ}

theorem floor (h : Represents em x) : em.mantissa ≤ x ∧ x < em.mantissa + 1 := by
  unfold Represents withRoundBit at h
  split at h <;> split at h <;> constructor <;> linarith

/-- Rounding a significand changes it by no more than a half. -/
theorem rounded (h : Represents em x) :
    (em.roundedMantissa = em.mantissa ∨ em.roundedMantissa = em.mantissa + 1) ∧
      |em.roundedMantissa - x| ≤ 1 / 2 := by
  have hparity := Nat.mod_two_eq_zero_or_one em.mantissa
  rw [roundedMantissa_eq]
  unfold Represents withRoundBit at h
  split at h <;> split at h
  · next hsticky hround =>
      rw [if_pos hround, if_pos hsticky]
      push_cast
      exact ⟨.inr rfl, abs_le.mpr ⟨by linarith, by linarith⟩⟩
  · next hround =>
      rw [if_neg hround]
      exact ⟨.inl rfl, abs_le.mpr ⟨by linarith, by linarith⟩⟩
  · next hsticky hround =>
      rw [if_pos hround, if_neg hsticky]
      -- A number in the middle is rounded to the even significand.
      rcases hparity with heven | hodd
      · rw [heven]
        exact ⟨.inl rfl, abs_le.mpr ⟨by push_cast; linarith, by push_cast; linarith⟩⟩
      · rw [hodd]
        exact ⟨.inr rfl, abs_le.mpr ⟨by push_cast; linarith, by push_cast; linarith⟩⟩
  · next hround =>
      rw [if_neg hround]
      exact ⟨.inl rfl, abs_le.mpr ⟨by linarith, by linarith⟩⟩

/-- A bit that is shifted out is the new round bit, and the others are kept in the sticky bit. -/
theorem shiftRightOne (h : Represents em x) : Represents em.shiftRightOne (x / 2) := by
  have hdigits : ((em.mantissa / 2 : ℕ) : ℚ) * 2 + (em.mantissa % 2 : ℕ) = em.mantissa := by
    exact_mod_cast Nat.div_add_mod' em.mantissa 2
  have hhalf : withRoundBit em.shiftRightOne = em.mantissa / 2 := by
    unfold withRoundBit ExtendedMantissa.shiftRightOne
    rcases Nat.mod_two_eq_zero_or_one em.mantissa with hbit | hbit <;> rw [hbit] at hdigits <;>
      norm_num [hbit] at hdigits ⊢ <;> linarith
  have hfloor := h.floor
  have hsticky : em.shiftRightOne.stickyBit = (em.roundBit || em.stickyBit) := rfl
  unfold Represents at h ⊢
  rw [hhalf, hsticky]
  unfold withRoundBit at h
  cases hround : em.roundBit <;> cases hbit : em.stickyBit <;>
    simp only [hround, hbit, Bool.or_self, Bool.or_true, Bool.true_or, if_true, if_false,
      Bool.false_eq_true] at h ⊢
  · rw [h, add_zero]
  · exact ⟨by linarith, by linarith⟩
  · exact ⟨by linarith, by linarith⟩
  · exact ⟨by linarith, by linarith⟩

theorem shiftRight (h : Represents em x) (n : ℕ) : Represents (em >>> n) (x / 2 ^ n) := by
  change Represents (n.repeat ExtendedMantissa.shiftRightOne em) _
  induction n with
  | zero => simpa [Nat.repeat] using h
  | succ n ih =>
      rw [Nat.repeat, pow_succ, ← div_div]
      exact ih.shiftRightOne

end Represents

/-- A significand with more bits than needed is shifted until it has as many as needed. -/
theorem shiftToTargetExponent_eq {m : ℕ} {e : ℤ} (hm : 2 ^ 52 ≤ m) (he : -1074 ≤ e)
    (accuracy : Accuracy) : shiftToTargetExponent .binary64 m e accuracy =
      (ExtendedMantissa.ofMantissaAndAccuracy m accuracy >>> (m.log2 - 52),
        e + (m.log2 - 52 : ℕ)) := by
  have hlog : 52 ≤ m.log2 := (Nat.le_log2 (by omega)).mpr hm
  have htarget : (Format.binary64.targetExponent (totalExponent m e) - e).toNat = m.log2 - 52 := by
    simp only [Format.targetExponent, totalExponent, Format.mantissaBits, Format.minExponent]
    omega
  simp only [shiftToTargetExponent, shiftToExponent, htarget]

/-- A significand that has become too large by rounding is a power of two, and shifting it once more
loses nothing. -/
theorem carry {r : ℕ} {e : ℤ} (hr : 2 ^ 52 ≤ r) (hr' : r ≤ 2 ^ 53) (he : -1074 ≤ e) :
    ∃ (m : ℕ) (i : ℕ), i ≤ 1 ∧ 2 ^ 52 ≤ m ∧ m < 2 ^ 53 ∧ r = m * 2 ^ i ∧
      (shiftToTargetExponent .binary64 r e .exact).1.mantissa = m ∧
      (shiftToTargetExponent .binary64 r e .exact).2 = e + i := by
  rw [shiftToTargetExponent_eq hr he]
  rcases Nat.lt_or_eq_of_le hr' with hlt | rfl
  · have hlog : r.log2 = 52 := (Nat.log2_eq_iff (by omega)).mpr ⟨hr, hlt⟩
    rw [hlog]
    exact ⟨r, 0, by omega, hr, hlt, by simp, rfl, rfl⟩
  · rw [Nat.log2_two_pow]
    exact ⟨2 ^ 52, 1, le_rfl, le_rfl, by norm_num, by norm_num, rfl, rfl⟩

/-- A significand that is shifted by as many bits as it has too many is full. -/
theorem Represents.full {m k : ℕ} {accuracy : Accuracy} {x : ℚ}
    (hx : Represents (.ofMantissaAndAccuracy m accuracy) x) (hlow : 2 ^ (52 + k) ≤ m)
    (hhigh : m < 2 ^ (53 + k)) :
    2 ^ 52 ≤ (ExtendedMantissa.ofMantissaAndAccuracy m accuracy >>> k).mantissa ∧
      (ExtendedMantissa.ofMantissaAndAccuracy m accuracy >>> k).mantissa < 2 ^ 53 := by
  have hpow : (0 : ℚ) < 2 ^ k := by positivity
  have hfloor := hx.floor
  rw [ofMantissaAndAccuracy_mantissa] at hfloor
  obtain ⟨hbelow, habove⟩ := (hx.shiftRight k).floor
  constructor
  · have hle : (2 : ℚ) ^ 52 ≤ x / 2 ^ k := by
      rw [le_div_iff₀ hpow, ← pow_add]
      exact le_trans (by exact_mod_cast hlow) hfloor.1
    exact Nat.lt_succ_iff.mp (by exact_mod_cast lt_of_le_of_lt hle habove)
  · have hlt : x / 2 ^ k < 2 ^ 53 := by
      rw [div_lt_iff₀ hpow, ← pow_add]
      exact lt_of_lt_of_le hfloor.2 (by exact_mod_cast hhigh)
    exact_mod_cast lt_of_le_of_lt hbelow hlt

/-- A number is rounded by rounding its full significand. -/
theorem Represents.rounds {em : ExtendedMantissa} {x : ℚ} (h : Represents em x)
    (hm : 2 ^ 52 ≤ em.mantissa) (hm' : em.mantissa < 2 ^ 53) (e : ℤ) :
    Rounds (x * 2 ^ e) (em.roundedMantissa * 2 ^ e) := by
  have hunit := two_zpow_pos e
  obtain ⟨hlow, hhigh⟩ := h.floor
  obtain ⟨hr, herror⟩ := h.rounded
  refine .of_grid hm hm' ?_ ?_ hr ?_
  · exact mul_le_mul_of_nonneg_right hlow hunit.le
  · exact mul_lt_mul_of_pos_right (by exact_mod_cast hhigh) hunit
  · rw [← sub_mul, abs_mul, abs_of_pos hunit]
    linarith [mul_le_mul_of_nonneg_right herror hunit.le]

/-- A number that is given by enough bits is rounded to one with a full significand. -/
theorem exists_roundWithAccuracy {m : ℕ} {e : ℤ} {accuracy : Accuracy} {x : ℚ} (sign : Sign)
    (hm : 2 ^ 52 ≤ m) (he : -1074 ≤ e) (hx : Represents (.ofMantissaAndAccuracy m accuracy) x) :
    ∃ (m' : ℕ) (e' : ℤ) (hpos : 0 < m'),
      roundWithAccuracy .binary64 sign m e accuracy = .finite sign m' e' hpos ∧
      2 ^ 52 ≤ m' ∧ m' < 2 ^ 53 ∧ e + (m.log2 - 52 : ℕ) ≤ e' ∧ e' ≤ e + (m.log2 - 52 : ℕ) + 1 ∧
      Rounds (x * 2 ^ e) (m' * 2 ^ e') := by
  have hlog : 52 ≤ m.log2 := (Nat.le_log2 (by omega)).mpr hm
  have hlow : 2 ^ (52 + (m.log2 - 52)) ≤ m := by
    rw [Nat.add_sub_cancel' hlog]
    exact Nat.log2_self_le (by omega)
  have hhigh : m < 2 ^ (53 + (m.log2 - 52)) := by
    rw [show 53 + (m.log2 - 52) = m.log2 + 1 by omega]
    exact Nat.lt_log2_self
  have hfirst := shiftToTargetExponent_eq hm he accuracy
  generalize m.log2 - 52 = k at *
  obtain ⟨hfull, hfull'⟩ := hx.full hlow hhigh
  have hshift := hx.shiftRight k
  generalize ExtendedMantissa.ofMantissaAndAccuracy m accuracy >>> k = em at *
  have hrounds := hshift.rounds hfull hfull' (e + k)
  have hr := hshift.rounded.1
  obtain ⟨m', i, hi, hm', hm'', hvalue, hmantissa, hexponent⟩ :=
    carry (r := em.roundedMantissa) (e := e + k) (by omega) (by omega) (by omega)
  refine ⟨m', e + k + i, by omega, ?_, hm', hm'', by omega, by omega, ?_⟩
  · unfold roundWithAccuracy
    simp only [hfirst, hmantissa, hexponent]
    rw [dif_neg (by omega)]
  · have hpow : (2 : ℚ) ^ k ≠ 0 := by positivity
    have hscale : x / 2 ^ k * 2 ^ (e + k) = x * 2 ^ e := by
      rw [zpow_add₀ (by norm_num), zpow_natCast]
      field_simp
    rw [hscale, hvalue] at hrounds
    rw [zpow_add₀ (by norm_num) (e + k), zpow_natCast]
    convert hrounds using 1
    push_cast
    ring

end Phrasebook.Number
