import Mathlib
import Phrasebook.Proofs.Number.Floating

/-!
# Integer parts and remainders

Truncating a floating-point number and taking a remainder are exact. So the integer part of a
remainder is the remainder of the integer part.
-/

namespace Phrasebook.Number

open Float.Model.UnpackedFloat

/-- An integer with a sign. -/
def signed (negative : Bool) (n : ℕ) : ℤ := if negative then -(n : ℤ) else n

/-- The sign of an integer in front of its magnitude. -/
theorem signed_natAbs (n : ℤ) : signed (n < 0) n.natAbs = n := by
  unfold signed
  split
  · next hneg =>
      have hneg := of_decide_eq_true hneg
      omega
  · next hneg =>
      have hneg := of_decide_eq_false (Bool.eq_false_of_not_eq_true hneg)
      omega

theorem signed_inj {negative : Bool} {a b : ℕ} : signed negative a = signed negative b ↔ a = b := by
  unfold signed
  split <;> omega

theorem signed_tdiv (negative : Bool) (k d : ℕ) :
    (signed negative k).tdiv d = signed negative (k / d) := by
  cases negative
  · rfl
  · exact Int.neg_tdiv k d

theorem signed_tmod (negative : Bool) (k d : ℕ) :
    (signed negative k).tmod d = signed negative (k % d) := by
  cases negative
  · rfl
  · exact Int.neg_tmod k d

theorem clampInt64_toInt (n : Int64) : clampInt64 n.toInt = n := by
  have hlow := n.le_toInt
  have hhigh := n.toInt_lt
  rw [← Int64.toInt_inj, toInt_clampInt64]
  unfold minInt64 maxInt64
  omega

/-- A small integer is not changed by the range of machine integers. -/
theorem toInt_clampInt64_signed {n : ℕ} (h : n < 2 ^ 63) (negative : Bool) :
    (clampInt64 (signed negative n)).toInt = signed negative n := by
  rw [toInt_clampInt64]
  unfold signed minInt64 maxInt64
  split <;> omega

/-- A machine integer with a small magnitude is given by that and its sign. -/
theorem eq_clampInt64 {n : Int64} {negative : Bool} {k : ℕ} (h : n.toInt = signed negative k)
    (hk : k < 2 ^ 63) : n = clampInt64 (signed negative k) := by
  rw [← Int64.toInt_inj, h, toInt_clampInt64_signed hk]

theorem Binary.floorMagnitude_eq (b : Binary) :
    b.floorMagnitude = ⌊(b.significand : ℚ) * 2 ^ b.exponent⌋₊ := by
  unfold floorMagnitude
  split
  · next hexponent =>
      have hvalue := mul_two_zpow hexponent b.significand
      rw [zpow_zero, mul_one, sub_zero] at hvalue
      rw [hvalue, Nat.floor_natCast, Nat.pow_eq]
  · next hexponent =>
      have hvalue : (b.significand : ℚ) * 2 ^ b.exponent =
          (b.significand : ℚ) / (2 ^ (-b.exponent).toNat : ℕ) := by
        have hneg : b.exponent = -((-b.exponent).toNat : ℤ) := by omega
        conv_lhs => rw [hneg, zpow_neg, zpow_natCast]
        push_cast
        rw [div_eq_mul_inv]
      rw [hvalue, Nat.floor_div_eq_div, Nat.pow_eq]

theorem truncateToInt64_of_ofFloat? {x : Float} {b : Binary} (h : Binary.ofFloat? x = some b) :
    truncateToInt64 x =
      clampInt64 (signed b.negative ⌊(b.significand : ℚ) * 2 ^ b.exponent⌋₊) := by
  unfold truncateToInt64
  rw [h]
  simp only [b.floorMagnitude_eq, Binary.withSign, signed]

theorem HasMagnitude.truncateToInt64_eq {x : Float} {negative : Bool} {bound : ℕ} {v : ℚ}
    (h : HasMagnitude x negative bound v) :
    truncateToInt64 x = clampInt64 (signed negative ⌊v⌋₊) := by
  obtain ⟨m, e, hparts, -, -, rfl⟩ := h
  rw [truncateToInt64_of_ofFloat? hparts.ofFloat?_eq]

theorem hasParts_ofBits {negative : Bool} {m : ℕ} {e : ℤ} (hm : 2 ^ 52 ≤ m) (hm' : m < 2 ^ 53)
    (he : -1074 ≤ e) (he' : e ≤ 971) :
    HasParts (Float.ofBits (UInt64.ofNat (normalBits negative m e))) negative m e := by
  have hlt := normalBits_lt hm hm' he he' negative
  have hbits : (UInt64.ofNat (normalBits negative m e)).toBitVec.toNat =
      normalBits negative m e := by
    simpa using hlt
  have hpos : 0 < m := by omega
  have hunpack : Float.ofBits (UInt64.ofNat (normalBits negative m e)) =
      .ofModel (.pack (.finite (signOf negative) m e hpos)) := by
    change Float.ofModel (.pack (Float.Model.UnpackedFloat.unpack .binary64 _)) = _
    rw [unpack_normal hm hm' he he' hbits hpos]
  rw [hunpack]
  exact .of_pack hm hm' he he' hpos

theorem magnitudeBits_eq {r : ℕ} {e : ℤ} (hr : 0 < r) (hr' : r < 2 ^ 53) (he : -1022 ≤ e)
    (negative : Bool) :
    (if negative then Nat.pow 2 63 else 0) + Binary.magnitudeBits r e =
      normalBits negative (r * 2 ^ (52 - r.log2)) (e + r.log2 - 52) := by
  have hlog : r.log2 < 53 := (Nat.log2_lt hr.ne').mpr hr'
  have hfull := full_of_lt hr hr'
  have hlast : max (e + ((r.log2 : ℤ) + 1) - 53) (-1074) = e + r.log2 - 52 := by omega
  have hge : e ≥ e + r.log2 - 52 := by omega
  have hshift : (e - (e + r.log2 - 52)).toNat = 52 - r.log2 := by omega
  unfold Binary.magnitudeBits normalBits
  rw [if_neg hr.ne']
  dsimp only
  rw [hlast, if_pos hge, hshift]
  simp only [Nat.pow_eq]
  rw [if_neg (not_lt.mpr hfull.1)]
  omega

/-- A number is put together from its parts without loss. -/
theorem truncateToInt64_toFloat {negative : Bool} {r : ℕ} {e : ℤ} (hr : r < 2 ^ 53)
    (he : -1022 ≤ e) (he' : e ≤ 900) :
    truncateToInt64 (Binary.toFloat ⟨negative, r, e⟩) =
      clampInt64 (signed negative ⌊(r : ℚ) * 2 ^ e⌋₊) := by
  rcases Nat.eq_zero_or_pos r with rfl | hpos
  · have hfloat : Binary.toFloat ⟨negative, 0, e⟩ =
        Float.ofBits (if negative then 0x8000000000000000 else 0) := by
      cases negative <;> rfl
    have hzero : Binary.ofFloat? (Binary.toFloat ⟨negative, 0, e⟩) =
        some ⟨negative, 0, -1074⟩ := by
      rw [hfloat]
      cases negative <;> decide +kernel
    rw [truncateToInt64_of_ofFloat? hzero]
    simp
  · have hlog : r.log2 < 53 := (Nat.log2_lt hpos.ne').mpr hr
    have hfull := full_of_lt hpos hr
    have hparts : HasParts (Binary.toFloat ⟨negative, r, e⟩) negative (r * 2 ^ (52 - r.log2))
        (e + r.log2 - 52) := by
      unfold Binary.toFloat
      dsimp only
      rw [magnitudeBits_eq hpos hr he negative]
      exact hasParts_ofBits hfull.1 hfull.2 (by omega) (by omega)
    have hvalue := mul_two_zpow (i := e + r.log2 - 52) (e := e) (by omega) r
    rw [show (e - (e + r.log2 - 52)).toNat = 52 - r.log2 by omega] at hvalue
    rw [truncateToInt64_of_ofFloat? hparts.ofFloat?_eq, hvalue]

/-- The integer part of a remainder is the remainder of the integer part. -/
theorem floor_mod {a b c : ℕ} {u : ℚ} (hu : 0 < u) (hc : (c : ℚ) = b * u) :
    ⌊((a % b : ℕ) : ℚ) * u⌋₊ = ⌊(a : ℚ) * u⌋₊ % c := by
  have hquotient : a / b = ⌊(a : ℚ) * u⌋₊ / c := by
    rw [← Nat.floor_div_natCast, hc, mul_div_mul_right _ _ hu.ne', Nat.floor_div_eq_div]
  have hremainder : ((a % b : ℕ) : ℚ) * u = a * u - (c * (a / b) : ℕ) := by
    have hdigits : ((b : ℚ) * (a / b : ℕ) + (a % b : ℕ)) = a := by
      exact_mod_cast Nat.div_add_mod a b
    push_cast
    rw [← hdigits, hc]
    ring
  rw [hremainder, Nat.floor_sub_natCast, hquotient, Nat.mod_eq_sub_mul_div]

theorem HasMagnitude.truncateToInt64_remainder {x : Float} {negative : Bool} {bound : ℕ} {v : ℚ}
    (h : HasMagnitude x negative bound v) (hbound : bound ≤ 800) {c : ℕ} (hpos : 0 < c)
    (hc : c ≤ 2 ^ 53) :
    truncateToInt64 (remainder x (Float.ofNat c)) = clampInt64 (signed negative (⌊v⌋₊ % c)) := by
  obtain ⟨m, e, hparts, hleast, hgreatest, rfl⟩ := h
  obtain ⟨k, j, hdivisor, hleast', hgreatest', hvalue⟩ := ofNat hpos hc
  have hk := hdivisor.pos
  have hm := hparts.high
  have hk' := hdivisor.high
  unfold remainder
  rw [hparts.ofFloat?_eq, hdivisor.ofFloat?_eq]
  dsimp only
  rw [if_neg hk.ne']
  simp only [Nat.pow_eq]
  -- One of the two significands is not scaled, and the remainder is below it.
  have hshort : m * 2 ^ (e - min e j).toNat % (k * 2 ^ (j - min e j).toNat) < 2 ^ 53 := by
    rcases le_total e j with hle | hle
    · refine lt_of_le_of_lt (Nat.mod_le _ _) ?_
      rwa [min_eq_left hle, sub_self, Int.toNat_zero, pow_zero, mul_one]
    · refine lt_trans (Nat.mod_lt _ (by positivity)) ?_
      rwa [min_eq_right hle, sub_self, Int.toNat_zero, pow_zero, mul_one]
  rw [truncateToInt64_toFloat hshort (by omega) (by omega),
    floor_mod (two_zpow_pos _), ← mul_two_zpow (min_le_left e j)]
  rw [hvalue, mul_two_zpow (min_le_right e j)]

end Phrasebook.Number
