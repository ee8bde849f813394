import Mathlib
import Phrasebook.Number.Binary
import Phrasebook.Proofs.Number.Rounding

/-!
# The parts of floating-point numbers

A number with a full significand is given by its sign, its significand and its exponent
(`HasParts`). The operations are defined by unpacking the bits, computing on the parts and packing
the rounded result. So the results have parts again, of which the sign and the range of the exponent
are known, and the magnitude is the exact one, rounded (`exists_div`, `exists_mul`, `exists_ofNat`,
`exists_ofInt64`). Zeros and numbers near zero, which have no full significand, are left out.

For a chain of quotients it is enough to know the sign, the magnitude and that the exponent stays
away from both ends of its range (`HasMagnitude`).
-/

namespace Phrasebook.Number

open Float.Model (Format UnpackedFloat totalExponent)
open Float.Model.UnpackedFloat

/-- The sign that is set or not. -/
def signOf (negative : Bool) : Sign := if negative then .negative else .positive

/-- The bits of a number with a full significand. -/
def normalBits (negative : Bool) (m : ℕ) (e : ℤ) : ℕ :=
  (if negative then 2 ^ 63 else 0) + (e + 1075).toNat * 2 ^ 52 + (m - 2 ^ 52)

theorem toNat_append_eq {k l : ℕ} (a : BitVec k) (b : BitVec l) :
    (a ++ b).toNat = a.toNat * 2 ^ l + b.toNat := by
  rw [BitVec.toNat_append, ← Nat.shiftLeft_add_eq_or_of_lt b.isLt, Nat.shiftLeft_eq]

theorem finite_congr {s s' : Sign} {m m' : ℕ} {e e' : ℤ} {h : 0 < m} {h' : 0 < m'} (hs : s = s')
    (hm : m = m') (he : e = e') : finite s m e h = finite s' m' e' h' := by
  subst hs hm he
  rfl

section Bits

variable {m : ℕ} {e : ℤ} (hm : 2 ^ 52 ≤ m) (hm' : m < 2 ^ 53)
  (he : -1074 ≤ e) (he' : e ≤ 971)

include hm hm' he he'

theorem normalBits_lt (negative : Bool) : normalBits negative m e < 2 ^ 64 := by
  unfold normalBits
  split <;> omega

theorem normalBits_mod (negative : Bool) : normalBits negative m e % 2 ^ 52 = m - 2 ^ 52 := by
  unfold normalBits
  split <;> omega

theorem normalBits_div_mod (negative : Bool) :
    normalBits negative m e / 2 ^ 52 % 2 ^ 11 = (e + 1075).toNat := by
  unfold normalBits
  split <;> omega

theorem normalBits_div (negative : Bool) :
    normalBits negative m e / 2 ^ 63 = if negative then 1 else 0 := by
  unfold normalBits
  split <;> omega

theorem toNat_pack (negative : Bool) (hpos : 0 < m) :
    (UnpackedFloat.pack .binary64 (.finite (signOf negative) m e hpos)).toNat =
      normalBits negative m e := by
  have hlog : m.log2 = 52 := (Nat.log2_eq_iff (by omega)).mpr ⟨hm, hm'⟩
  have hbiased : (e + (Format.binary64.exponentBias : ℤ) + (52 : ℕ)).toNat = (e + 1075).toNat := by
    simp only [Format.exponentBias]
    omega
  simp only [UnpackedFloat.pack, hbiased, hlog, Format.mantissaBits]
  rw [if_neg (by omega), if_pos trivial]
  simp only [packComponents]
  rw [toNat_append_eq, toNat_append_eq, BitVec.toNat_ofNat, BitVec.toNat_ofNat,
    Nat.mod_eq_of_lt (by omega : (e + 1075).toNat < 2 ^ 11)]
  unfold normalBits
  cases negative
  · change (0 * 2 ^ 11 + _) * 2 ^ 52 + _ = _
    rw [if_neg (by simp)]
    omega
  · change (1 * 2 ^ 11 + _) * 2 ^ 52 + _ = _
    rw [if_pos rfl]
    omega

theorem unpack_normal {negative : Bool} {bits : BitVec 64}
    (h : bits.toNat = normalBits negative m e) (hpos : 0 < m) :
    UnpackedFloat.unpack .binary64 bits = .finite (signOf negative) m e hpos := by
  have hmantissa : (@unpackMantissa .binary64 bits).toNat = m - 2 ^ 52 := by
    have hmod := normalBits_mod hm hm' he he' negative
    rw [← h] at hmod
    simpa [unpackMantissa] using hmod
  have hexponent : (@unpackExponent .binary64 bits).toNat = (e + 1075).toNat := by
    have hdiv := normalBits_div_mod hm hm' he he' negative
    rw [← h] at hdiv
    simpa [unpackExponent, Nat.shiftRight_eq_div_pow] using hdiv
  have hsign : (@unpackSign .binary64 bits).toNat = if negative then 1 else 0 := by
    have hdiv := normalBits_div hm hm' he he' negative
    rw [← h] at hdiv
    have hlt : bits.toNat < 2 ^ 64 := bits.isLt
    have hone : bits.toNat / 2 ^ 63 % 2 = bits.toNat / 2 ^ 63 := by omega
    rw [← hdiv, ← hone]
    simp [unpackSign, Nat.shiftRight_eq_div_pow]
  have hinfinite : @unpackExponent .binary64 bits ≠ -1#_ := by
    intro heq
    rw [heq] at hexponent
    simp at hexponent
    omega
  have hzero : @unpackExponent .binary64 bits ≠ 0#_ := by
    intro heq
    rw [heq] at hexponent
    simp at hexponent
    omega
  unfold UnpackedFloat.unpack
  dsimp only
  rw [if_neg hinfinite, if_neg hzero]
  refine finite_congr ?_ ?_ ?_
  · cases negative
    · exact if_pos (BitVec.eq_of_toNat_eq hsign)
    · refine if_neg fun heq => ?_
      rw [heq] at hsign
      exact absurd hsign (by decide)
  · rw [toNat_append_eq, hmantissa]
    exact Nat.add_sub_of_le hm
  · rw [hexponent]
    simp only [Format.exponentBias]
    omega

end Bits

/-- A significand is filled up with zeros. -/
theorem full_of_lt {r : ℕ} (hr : 0 < r) (hr' : r < 2 ^ 53) :
    2 ^ 52 ≤ r * 2 ^ (52 - r.log2) ∧ r * 2 ^ (52 - r.log2) < 2 ^ 53 := by
  have hlog : r.log2 < 53 := (Nat.log2_lt hr.ne').mpr hr'
  constructor
  · calc 2 ^ 52 = 2 ^ r.log2 * 2 ^ (52 - r.log2) := by rw [← pow_add]; congr 1; omega
      _ ≤ r * 2 ^ (52 - r.log2) := Nat.mul_le_mul_right _ (Nat.log2_self_le hr.ne')
  · calc r * 2 ^ (52 - r.log2) < 2 ^ (r.log2 + 1) * 2 ^ (52 - r.log2) :=
          Nat.mul_lt_mul_of_pos_right Nat.lt_log2_self (by positivity)
      _ = 2 ^ 53 := by rw [← pow_add]; congr 1; omega

/-- A number is `± m · 2 ^ e` with a full significand. -/
structure HasParts (x : Float) (negative : Bool) (m : ℕ) (e : ℤ) : Prop where
  low : 2 ^ 52 ≤ m
  high : m < 2 ^ 53
  least : -1074 ≤ e
  greatest : e ≤ 971
  bits : x.toBits.toNat = normalBits negative m e

namespace HasParts

variable {x y : Float} {negative : Bool} {m k : ℕ} {e j : ℤ}

theorem pos (h : HasParts x negative m e) : 0 < m := by
  have hlow := h.low
  omega

theorem log2 (h : HasParts x negative m e) : m.log2 = 52 :=
  (Nat.log2_eq_iff h.pos.ne').mpr ⟨h.low, h.high⟩

theorem unpack (h : HasParts x negative m e) :
    x.toModel.unpack = .finite (signOf negative) m e h.pos :=
  unpack_normal h.low h.high h.least h.greatest h.bits h.pos

theorem of_pack (hm : 2 ^ 52 ≤ m) (hm' : m < 2 ^ 53) (he : -1074 ≤ e) (he' : e ≤ 971)
    (hpos : 0 < m) :
    HasParts (.ofModel (.pack (.finite (signOf negative) m e hpos))) negative m e :=
  ⟨hm, hm', he, he', toNat_pack hm hm' he he' negative hpos⟩

theorem ofFloat?_eq (h : HasParts x negative m e) :
    Binary.ofFloat? x = some ⟨negative, m, e⟩ := by
  obtain ⟨hm, hm', he, he', hbits⟩ := h
  have hmod := normalBits_mod hm hm' he he' negative
  have hexponent := normalBits_div_mod hm hm' he he' negative
  have hsign := normalBits_div hm hm' he he' negative
  have hnegative : isNegative x = negative := by
    unfold isNegative
    rw [hbits]
    change (normalBits negative m e / 2 ^ 63 == 1) = negative
    rw [hsign]
    cases negative <;> rfl
  unfold Binary.ofFloat?
  rw [hbits, hnegative]
  simp only [Nat.pow_eq, hmod, hexponent]
  rw [if_neg (by omega), if_neg (by omega), Nat.sub_add_cancel hm,
    show ((e + 1075).toNat : ℤ) - 1075 = e by omega]

theorem neg (h : HasParts x negative m e) : HasParts (-x) (!negative) m e := by
  have hneg : -x = .ofModel (.pack (.finite (signOf (!negative)) m e h.pos)) := by
    change Float.ofModel (.pack x.toModel.unpack.neg) = _
    rw [h.unpack]
    cases negative <;> rfl
  rw [hneg]
  exact of_pack h.low h.high h.least h.greatest h.pos

/-- A number that is given by enough bits is rounded. -/
theorem exists_of_round {accuracy : Accuracy} {v : ℚ} (hm : 2 ^ 52 ≤ m) (he : -1074 ≤ e)
    (he' : e + (m.log2 - 52 : ℕ) + 1 ≤ 971)
    (hv : Represents (.ofMantissaAndAccuracy m accuracy) v) (negative : Bool) :
    ∃ m' e', HasParts
        (.ofModel (.pack (roundWithAccuracy .binary64 (signOf negative) m e accuracy)))
        negative m' e' ∧
      e + (m.log2 - 52 : ℕ) ≤ e' ∧ e' ≤ e + (m.log2 - 52 : ℕ) + 1 ∧
      Rounds (v * 2 ^ e) (m' * 2 ^ e') := by
  obtain ⟨m', e', hpos, hround, hlow, hhigh, hleast, hgreatest, hrounds⟩ :=
    exists_roundWithAccuracy (signOf negative) hm he hv
  rw [hround]
  exact ⟨m', e', of_pack hlow hhigh (by omega) (by omega) hpos, hleast, hgreatest, hrounds⟩

/-- The quotient of two numbers is rounded. -/
theorem exists_div (hx : HasParts x negative m e) (hy : HasParts y false k j)
    (hleast : -1074 ≤ e - j - 53) (hgreatest : e - j - 51 ≤ 971) :
    ∃ m' e', HasParts (x / y) negative m' e' ∧ e - j - 53 ≤ e' ∧ e' ≤ e - j - 51 ∧
      Rounds (m * 2 ^ e / (k * 2 ^ j)) (m' * 2 ^ e') := by
  have hk := hy.pos
  have hm := hx.low
  have hm' := hx.high
  have hk' := hy.low
  have hk'' := hy.high
  have hcore : divCore .binary64 m e k j =
      (m * 2 ^ 53 / k, e - j - 53, accuracyOfFraction (m * 2 ^ 53 % k) k) := by
    have htarget : min (e - j) (Format.binary64.targetExponent
        (totalExponent m e - totalExponent k j)) = e - j - 53 := by
      simp only [Format.targetExponent, totalExponent, Format.mantissaBits, Format.minExponent,
        hx.log2, hy.log2]
      omega
    unfold divCore
    simp only [htarget, Nat.shiftLeft_eq]
    rw [show (e - j - (e - j - 53)).toNat = 53 by omega]
  have hquotient : 2 ^ 52 ≤ m * 2 ^ 53 / k := by
    rw [Nat.le_div_iff_mul_le hk]
    omega
  have hquotient' : m * 2 ^ 53 / k < 2 ^ 54 := by
    rw [Nat.div_lt_iff_lt_mul hk]
    omega
  have hlog : (m * 2 ^ 53 / k).log2 < 54 := (Nat.log2_lt (by omega)).mpr hquotient'
  obtain ⟨m', e', hparts, hlow, hhigh, hrounds⟩ := exists_of_round hquotient hleast (by omega)
    (represents_fraction (m * 2 ^ 53 / k) (Nat.mod_lt (m * 2 ^ 53) hk)) negative
  refine ⟨m', e', ?_, by omega, by omega, ?_⟩
  · have hdiv : x / y = .ofModel (.pack (roundWithAccuracy .binary64 (signOf negative)
        (m * 2 ^ 53 / k) (e - j - 53) (accuracyOfFraction (m * 2 ^ 53 % k) k))) := by
      change Float.ofModel (.pack (UnpackedFloat.div .binary64 x.toModel.unpack
        y.toModel.unpack)) = _
      rw [hx.unpack, hy.unpack]
      simp only [UnpackedFloat.div, hcore]
      cases negative <;> rfl
    rwa [hdiv]
  · have hkq : (k : ℚ) ≠ 0 := by exact_mod_cast hk.ne'
    have hdigits : ((m * 2 ^ 53 / k : ℕ) : ℚ) + (m * 2 ^ 53 % k : ℕ) / k = m * 2 ^ 53 / k := by
      rw [eq_div_iff hkq, add_mul, div_mul_cancel₀ _ hkq]
      exact_mod_cast Nat.div_add_mod' (m * 2 ^ 53) k
    convert hrounds using 1
    rw [hdigits, zpow_sub₀ (by norm_num), zpow_sub₀ (by norm_num)]
    field_simp

/-- The product of two numbers is rounded. -/
theorem exists_mul (hx : HasParts x negative m e) (hy : HasParts y false k j)
    (hleast : -1074 ≤ e + j) (hgreatest : e + j + 54 ≤ 971) :
    ∃ m' e', HasParts (x * y) negative m' e' ∧ e + j + 52 ≤ e' ∧ e' ≤ e + j + 54 ∧
      Rounds (m * 2 ^ e * (k * 2 ^ j)) (m' * 2 ^ e') := by
  have hproduct : 2 ^ 52 * 2 ^ 52 ≤ m * k := Nat.mul_le_mul hx.low hy.low
  have hproduct' : m * k < 2 ^ 53 * 2 ^ 53 := Nat.mul_lt_mul'' hx.high hy.high
  have hlog : (m * k).log2 < 106 := (Nat.log2_lt (by omega)).mpr hproduct'
  have hlog' : 104 ≤ (m * k).log2 := (Nat.le_log2 (by omega)).mpr hproduct
  obtain ⟨m', e', hparts, hlow, hhigh, hrounds⟩ :=
    exists_of_round (by omega) hleast (by omega) (represents_exact (m * k)) negative
  refine ⟨m', e', ?_, by omega, by omega, ?_⟩
  · have hmul : x * y = .ofModel (.pack (roundWithAccuracy .binary64 (signOf negative)
        (m * k) (e + j) .exact)) := by
      change Float.ofModel (.pack (UnpackedFloat.mul .binary64 x.toModel.unpack
        y.toModel.unpack)) = _
      rw [hx.unpack, hy.unpack]
      cases negative <;> rfl
    rwa [hmul]
  · convert hrounds using 1
    rw [zpow_add₀ (by norm_num)]
    push_cast
    ring

theorem one : HasParts (Float.ofBits 0x3FF0000000000000) false (2 ^ 52) (-52) :=
  ⟨le_rfl, by norm_num, by norm_num, by norm_num, by decide +kernel⟩

/-- A natural number with few enough digits. -/
theorem exists_ofUInt64 {n : ℕ} (hpos : 0 < n) (hn : n < 2 ^ 53) :
    ∃ m e, HasParts n.toUInt64.toFloat false m e ∧ -52 ≤ e ∧ e ≤ 1 ∧ Rounds n (m * 2 ^ e) := by
  have hlog : n.log2 < 53 := (Nat.log2_lt hpos.ne').mpr hn
  obtain ⟨hlow, hhigh⟩ := full_of_lt hpos hn
  have hlog' : (n * 2 ^ (52 - n.log2)).log2 = 52 :=
    (Nat.log2_eq_iff (by omega)).mpr ⟨hlow, hhigh⟩
  obtain ⟨m, e, hparts, hleast, hgreatest, hrounds⟩ := exists_of_round (e := n.log2 - 52) hlow
    (by omega) (by omega) (represents_exact (n * 2 ^ (52 - n.log2))) false
  refine ⟨m, e, ?_, by omega, by omega, ?_⟩
  · have hround : n.toUInt64.toFloat = .ofModel (.pack (roundWithAccuracy .binary64 .positive
        (n * 2 ^ (52 - n.log2)) (n.log2 - 52) .exact)) := by
      have hnat : n.toUInt64.toNat = n := by
        simp
        omega
      have htarget : (0 - Format.binary64.targetExponent (totalExponent n 0)).toNat =
          52 - n.log2 := by
        simp only [Format.targetExponent, totalExponent, Format.mantissaBits, Format.minExponent]
        omega
      have hcompare : compare (n : ℤ) 0 = .gt := Int.compare_eq_gt.mpr (by omega)
      change Float.ofModel (.pack (normalize .binary64 (n.toUInt64.toNat : ℤ) 0 .positive)) = _
      unfold UnpackedFloat.normalize
      simp only [hnat, hcompare, UnpackedFloat.round, decreaseExponent, htarget, Nat.shiftLeft_eq,
        Int.toNat_natCast]
      rw [show (0 : ℤ) - (52 - n.log2 : ℕ) = n.log2 - 52 by omega]
    rwa [hround]
  · convert hrounds using 1
    have hvalue := mul_two_zpow (i := n.log2 - 52) (e := 0) (by omega) n
    rw [zpow_zero, mul_one, show (0 - ((n.log2 : ℤ) - 52)).toNat = 52 - n.log2 by omega] at hvalue
    exact hvalue

/-- A natural number is rounded. -/
theorem exists_ofNat {n : ℕ} (hpos : 0 < n) (hn : n ≤ 2 ^ 63) :
    ∃ m e, HasParts (Float.ofNat n) false m e ∧ -52 ≤ e ∧ e ≤ 12 ∧ Rounds n (m * 2 ^ e) := by
  by_cases hsmall : n < 2 ^ 53
  · obtain ⟨m, e, hparts, hleast, hgreatest, hrounds⟩ := exists_ofUInt64 hpos hsmall
    obtain ⟨m', e', hparts', hleast', hgreatest', hrounds'⟩ :=
      hparts.exists_mul one (by omega) (by omega)
    refine ⟨m', e', ?_, by omega, by omega, ?_⟩
    · have hmul : Float.ofNat n = n.toUInt64.toFloat * Float.ofBits 0x3FF0000000000000 := by
        change Float.ofScientific n false 0 = _
        unfold Float.ofScientific
        rw [dif_pos ⟨hsmall, by norm_num⟩]
        rfl
      rwa [hmul]
    · rw [hrounds.eq_of_short (.natCast hsmall.le)] at hrounds'
      convert hrounds' using 1
      norm_num
  · have hn' : 2 ^ 53 ≤ n := not_lt.mp hsmall
    have hlog : 53 ≤ n.log2 := (Nat.le_log2 hpos.ne').mpr hn'
    have hlog' : n.log2 < 64 := (Nat.log2_lt hpos.ne').mpr (by omega)
    have hshift : (n * 2 ^ 53).log2 = n.log2 + 53 := by
      refine (Nat.log2_eq_iff (by omega)).mpr ⟨?_, ?_⟩
      · rw [pow_add]
        exact Nat.mul_le_mul_right _ (Nat.log2_self_le hpos.ne')
      · rw [Nat.add_right_comm, pow_add]
        exact Nat.mul_lt_mul_of_pos_right Nat.lt_log2_self (by positivity)
    obtain ⟨m, e, hparts, hleast, hgreatest, hrounds⟩ := exists_of_round (e := -53)
      (by omega) (by omega) (by omega) (represents_exact (n * 2 ^ 53)) false
    refine ⟨m, e, ?_, by omega, by omega, ?_⟩
    · have hround : Float.ofNat n = .ofModel (.pack (roundWithAccuracy .binary64 (signOf false)
          (n * 2 ^ 53) (-53) .exact)) := by
        change Float.ofScientific n false 0 = _
        unfold Float.ofScientific
        rw [dif_neg (by omega)]
        change Float.ofModel (.pack (UnpackedFloat.ofScientific .binary64 n 0)) = _
        unfold UnpackedFloat.ofScientific
        rw [dif_neg hpos.ne', if_neg (by norm_num), if_neg (by norm_num),
          if_pos le_rfl]
        simp only [UnpackedFloat.mul, Nat.shiftLeft_eq, Int.toNat_zero, pow_zero, mul_one]
        rfl
      rwa [hround]
    · convert hrounds using 1
      have hvalue := mul_two_zpow (i := -53) (e := 0) (by norm_num) n
      rwa [zpow_zero, mul_one] at hvalue

/-- An integer is rounded to the same sign. -/
theorem exists_ofInt64 {n : Int64} (hn : n.toInt ≠ 0) :
    ∃ m e, HasParts (ofInt64 n) (n.toInt < 0) m e ∧ -52 ≤ e ∧ e ≤ 12 ∧
      Rounds n.toInt.natAbs (m * 2 ^ e) := by
  have hlow := n.le_toInt
  have hhigh := n.toInt_lt
  obtain ⟨m, e, hparts, hrest⟩ := exists_ofNat (n := n.toInt.natAbs) (by omega) (by omega)
  refine ⟨m, e, ?_, hrest⟩
  unfold ofInt64
  rcases hint : n.toInt with k | k
  · rw [hint] at hparts
    exact hparts
  · rw [hint] at hparts
    rw [decide_eq_true (Int.negSucc_lt_zero k)]
    exact hparts.neg

end HasParts

/-- A number has a sign and a magnitude, and an exponent that is bounded on both sides of zero. -/
def HasMagnitude (x : Float) (negative : Bool) (bound : ℕ) (v : ℚ) : Prop :=
  ∃ m e, HasParts x negative m e ∧ -bound ≤ e ∧ e ≤ bound ∧ v = m * 2 ^ e

namespace HasMagnitude

variable {x : Float} {negative : Bool} {bound : ℕ} {v : ℚ}

theorem exists_ofInt64 {n : Int64} (hn : n.toInt ≠ 0) :
    ∃ v, HasMagnitude (ofInt64 n) (n.toInt < 0) 52 v ∧ Rounds n.toInt.natAbs v := by
  obtain ⟨m, e, hparts, hleast, hgreatest, hrounds⟩ := HasParts.exists_ofInt64 hn
  exact ⟨_, ⟨m, e, hparts, by omega, by omega, rfl⟩, hrounds⟩

theorem ofNat {c : ℕ} (hpos : 0 < c) (hc : c ≤ 2 ^ 53) :
    HasMagnitude (Float.ofNat c) false 52 c := by
  obtain ⟨m, e, hparts, hleast, hgreatest, hrounds⟩ := HasParts.exists_ofNat hpos (by omega)
  exact ⟨m, e, hparts, by omega, by omega, (hrounds.eq_of_short (.natCast hc)).symm⟩

/-- The quotient by a natural number is rounded. -/
theorem exists_div (h : HasMagnitude x negative bound v) (hbound : bound ≤ 800) {c : ℕ}
    (hpos : 0 < c) (hc : c ≤ 2 ^ 53) :
    ∃ w, HasMagnitude (x / Float.ofNat c) negative (bound + 105) w ∧ Rounds (v / c) w := by
  obtain ⟨m, e, hparts, hleast, hgreatest, rfl⟩ := h
  obtain ⟨k, j, hdivisor, hleast', hgreatest', hvalue⟩ := ofNat hpos hc
  obtain ⟨m', e', hquotient, hlow, hhigh, hrounds⟩ :=
    hparts.exists_div hdivisor (by omega) (by omega)
  rw [← hvalue] at hrounds
  exact ⟨_, ⟨m', e', hquotient, by omega, by omega, rfl⟩, hrounds⟩

end HasMagnitude

end Phrasebook.Number
