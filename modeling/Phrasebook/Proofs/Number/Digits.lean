import Mathlib
import Phrasebook.Number.Text

/-!
# The texts of an integer

An integer is written without zeros in front of its digits and without a plus sign, but it is read
with any number of zeros, and with a plus sign if it is not negative. In the order of texts, both
come before a digit that is not zero. So of all texts that are read as an integer other than zero,
the one that is written is the last (`Number.not_intText_lt`).
-/

namespace Phrasebook.Number

variable {c : Char} {cs : List Char}

theorem digitValue_lt (h : c.isDigit) : digitValue c < 10 := by
  have hrange : 48 ≤ c.toNat ∧ c.toNat ≤ 57 := by
    simpa [Char.isDigit, UInt32.le_iff_toNat_le] using h
  change c.toNat - 48 < 10
  omega

theorem digitChar_digitValue (h : c.isDigit) : Nat.digitChar (digitValue c) = c := by
  have hrange : 48 ≤ c.toNat ∧ c.toNat ≤ 57 := by
    simpa [Char.isDigit, UInt32.le_iff_toNat_le] using h
  have hvalue : digitValue c = c.toNat - 48 := rfl
  apply Char.toNat_inj.mp
  rw [Nat.toNat_digitChar_of_lt_ten (digitValue_lt h)]
  omega

theorem digitValue_pos (h : c.isDigit) (hzero : c ≠ '0') : 0 < digitValue c := by
  refine Nat.pos_of_ne_zero fun hvalue => hzero ?_
  rw [← digitChar_digitValue h, hvalue]
  rfl

/-- A digit other than zero comes behind zero and behind both signs. -/
theorem zero_lt_digit (h : c.isDigit) (hzero : c ≠ '0') : '0' < c := by
  have hrange : 48 ≤ c.toNat ∧ c.toNat ≤ 57 := by
    simpa [Char.isDigit, UInt32.le_iff_toNat_le] using h
  have hne : c.toNat ≠ 48 := fun hsame => hzero (Char.toNat_inj.mp hsame)
  rw [Char.lt_def, UInt32.lt_iff_toNat_lt]
  change 48 < c.toNat
  omega

/-- Digits behind those of a number are its last digits. -/
theorem toDigits_foldl (hcs : cs.all Char.isDigit) {front : Nat} (hfront : 0 < front) :
    Nat.toDigits 10 (cs.foldl (fun n c => 10 * n + digitValue c) front) =
      Nat.toDigits 10 front ++ cs := by
  induction cs generalizing front with
  | nil => simp
  | cons c cs ih =>
      simp only [List.all_cons, Bool.and_eq_true] at hcs
      obtain ⟨hc, hcs⟩ := hcs
      have hlast := Nat.toDigits_append_toDigits (b := 10) (by decide) hfront (digitValue_lt hc)
      rw [Nat.toDigits_of_lt_base (digitValue_lt hc), digitChar_digitValue hc] at hlast
      rw [List.foldl_cons, ih hcs (by omega), ← hlast, List.append_assoc, List.singleton_append]

/-- The number that digits spell is written without the zeros in front of them. -/
theorem toDigits_ofDigits (hcs : cs.all Char.isDigit) (hpos : 0 < ofDigits cs) :
    ∃ zeros c rest, cs = zeros ++ c :: rest ∧ (∀ z ∈ zeros, z = '0') ∧ '0' < c ∧
      Nat.toDigits 10 (ofDigits cs) = c :: rest := by
  induction cs with
  | nil => cases hpos
  | cons c cs ih =>
      simp only [List.all_cons, Bool.and_eq_true] at hcs
      obtain ⟨hc, hcs⟩ := hcs
      by_cases hzero : c = '0'
      · subst hzero
        obtain ⟨zeros, d, rest, hsplit, hzeros, hd, hdigits⟩ := ih hcs hpos
        exact ⟨'0' :: zeros, d, rest, by simp [hsplit], by simpa using hzeros, hd, hdigits⟩
      · have hvalue := digitValue_pos hc hzero
        have hdigits : Nat.toDigits 10 (ofDigits (c :: cs)) = c :: cs := by
          have hfold := toDigits_foldl hcs hvalue
          rw [Nat.toDigits_of_lt_base (digitValue_lt hc), digitChar_digitValue hc] at hfold
          simpa [ofDigits] using hfold
        exact ⟨[], c, cs, rfl, by simp, zero_lt_digit hc hzero, hdigits⟩

theorem isDigit_of_mem_toDigits {n : Nat} (h : c ∈ Nat.toDigits 10 n) : c.isDigit :=
  Nat.isDigit_of_mem_toDigits (by decide) (Nat.le_refl 10) h

/-- Digits are read as the number that they are written for. -/
theorem readNat?_toDigits (n : Nat) : readNat? (Nat.toDigits 10 n) = some n := by
  have hdigits : (Nat.toDigits 10 n).all Char.isDigit :=
    List.all_eq_true.mpr fun _ => isDigit_of_mem_toDigits
  have hvalue : ofDigits (Nat.toDigits 10 n) = n := Nat.ofDigitChars_ten_toDigits
  rw [readNat?, if_pos ⟨Nat.toDigits_ne_nil, hdigits⟩, hvalue]

/-- The digits that are written come in front of no others that spell the same number. -/
theorem not_toDigits_lt {n : Nat} (h : readNat? cs = some n) (hpos : 0 < n) :
    ¬ Nat.toDigits 10 n < cs := by
  simp only [readNat?, Option.ite_none_right_eq_some, Option.some.injEq] at h
  obtain ⟨⟨-, hcs⟩, rfl⟩ := h
  obtain ⟨zeros, c, rest, hsplit, hzeros, hc, hdigits⟩ := toDigits_ofDigits hcs hpos
  rw [hdigits, hsplit]
  cases zeros with
  | nil => exact List.lt_irrefl _
  | cons z zeros =>
      obtain rfl : z = '0' := hzeros z (by simp)
      rw [List.cons_append, List.cons_lt_cons_iff]
      rintro (hlt | ⟨rfl, -⟩)
      · exact Char.lt_asymm hc hlt
      · exact absurd hc (Char.lt_irrefl _)

theorem toList_intText_natCast (n : Nat) : (intText n).toList = Nat.toDigits 10 n := by
  rw [intText, Int.toString_eq_repr, Int.repr_eq_if, if_pos (Int.natCast_nonneg n),
    Int.toNat_natCast, Nat.toList_repr]

theorem toList_intText_neg {n : Nat} (hpos : 0 < n) :
    (intText (-n)).toList = '-' :: Nat.toDigits 10 n := by
  rw [intText, Int.toString_eq_repr, Int.repr_eq_if, if_neg (by omega), neg_neg,
    Int.toNat_natCast, String.toList_append, Nat.toList_repr]
  rfl

/-- Digits without a sign are read as an integer if that is not too large. -/
theorem readInt64?_toDigits (n : Nat) :
    readInt64? (.ofList (Nat.toDigits 10 n)) =
      if (n : Int) ≤ maxInt64 then some (.ofInt n) else none := by
  have hread : readInt? (Nat.toDigits 10 n) = some (n : Int) := by
    obtain ⟨c, rest, hdigits⟩ := List.exists_cons_of_ne_nil (Nat.toDigits_ne_nil (b := 10) (n := n))
    have hc : c.isDigit := isDigit_of_mem_toDigits (n := n) (hdigits ▸ List.mem_cons_self)
    have hsigns : c ≠ '-' ∧ c ≠ '+' := by
      constructor <;> rintro rfl <;> cases hc
    have hnat := readNat?_toDigits n
    rw [hdigits] at hnat ⊢
    simp [readInt?, readUnsigned?, hsigns, hnat]
  have hlow : minInt64 ≤ (n : Int) := by simp only [minInt64]; omega
  rw [readInt64?, readBounded?, String.toList_ofList, hread]
  simp only [Option.filter_some, hlow, decide_true, Bool.true_and, decide_eq_true_eq]
  split <;> rfl

theorem not_intText_lt_of_readUnsigned? {n : Nat} (h : readUnsigned? cs = some n) (hpos : 0 < n) :
    ¬ (intText n).toList < cs := by
  rw [toList_intText_natCast]
  unfold readUnsigned? at h
  split at h
  · next digits =>
      simp only [readNat?, Option.ite_none_right_eq_some, Option.some.injEq] at h
      obtain ⟨⟨-, hdigits⟩, rfl⟩ := h
      obtain ⟨zeros, c, rest, -, -, hc, hwritten⟩ := toDigits_ofDigits hdigits hpos
      have hplus : '+' < c := Char.lt_trans (by decide) hc
      rw [hwritten, List.cons_lt_cons_iff]
      rintro (hlt | ⟨rfl, -⟩)
      · exact Char.lt_asymm hplus hlt
      · exact absurd hplus (Char.lt_irrefl _)
  · exact not_toDigits_lt h hpos

theorem not_intText_lt_of_readInt? {i : Int} (h : readInt? cs = some i) (hi : i ≠ 0) :
    ¬ (intText i).toList < cs := by
  unfold readInt? at h
  split at h
  · next digits =>
      obtain ⟨n, hread, rfl⟩ : ∃ n : Nat, readNat? digits = some n ∧ -(n : Int) = i := by
        simpa [Option.bind_eq_some_iff] using h
      have hpos : 0 < n := by omega
      rw [toList_intText_neg hpos, List.cons_lt_cons_iff]
      rintro (hlt | ⟨-, hlt⟩)
      · exact absurd hlt (Char.lt_irrefl _)
      · exact not_toDigits_lt hread hpos hlt
  · obtain ⟨n, hread, rfl⟩ : ∃ n : Nat, readUnsigned? cs = some n ∧ (n : Int) = i := by
      simpa [Option.bind_eq_some_iff] using h
    exact not_intText_lt_of_readUnsigned? hread (by omega)

theorem readInt?_of_readInt64? {s : String} {n : Int64} (h : readInt64? s = some n) :
    readInt? s.toList = some n.toInt := by
  obtain ⟨i, hbounded, rfl⟩ := Option.map_eq_some_iff.mp h
  obtain ⟨hread, hrange⟩ := Option.filter_eq_some_iff.mp hbounded
  have hbounds : minInt64 ≤ i ∧ i ≤ maxInt64 := by simpa using hrange
  rw [hread, Int64.toInt_ofInt_of_le hbounds.1 (Int.lt_add_one_of_le hbounds.2)]

/-- An integer other than zero is written behind all texts that are read as it. -/
theorem not_intText_lt {s : String} {n : Int64} (h : readInt64? s = some n) (hn : n ≠ 0) :
    ¬ intText n.toInt < s := by
  have hi : n.toInt ≠ 0 := fun hzero => hn (Int64.toInt_inj.mp hzero)
  exact not_intText_lt_of_readInt? (readInt?_of_readInt64? h) hi

end Phrasebook.Number
