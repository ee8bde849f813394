import Mathlib
import Phrasebook.Proofs.Number.Quantity
import Phrasebook.Time.Duration

/-!
# The text of a duration

A duration is written as amounts of one or several units, the largest first, with a minus sign in
front of them if it is negative. Only the last amount can have a fraction, and that has no zero at
its end (`Duration.Spelled`).

Adding up the amounts of a text is defined on texts alone, by reading the number in front of each
unit (`Duration.sumAmounts`). For the text of a duration it gives exactly the nanoseconds of the
duration, so that durations with the same text are the same (`Duration.text_lossless`).
-/

namespace Phrasebook

namespace Duration

open Number (Quantity)

section Padded

variable {places n : Nat}

theorem length_padded (hplaces : 0 < places) (hn : n < 10 ^ places) :
    (padded places n).length = places := by
  have hlength := (Nat.length_toDigits_le_iff (by decide) hplaces).mpr hn
  simp only [padded, List.length_append, List.length_replicate]
  omega

theorem ofDigits_padded (places n : Nat) : Number.ofDigits (padded places n) = n := by
  rw [padded, Number.ofDigits_append, Number.ofDigits_zeros, Number.ofDigits_toDigits]
  omega

theorem all_isDigit_padded (places n : Nat) : (padded places n).all Char.isDigit := by
  rw [padded, List.all_append, Number.all_isDigit_toDigits, Bool.and_true]
  simp [List.all_replicate]

/-- Digits without the zeros at their end. -/
def trimmed (cs : List Char) : List Char := cs.rdropWhile (· == '0')

theorem trimmed_append (cs : List Char) :
    ∃ count, cs = trimmed cs ++ List.replicate count '0' := by
  refine ⟨(cs.rtakeWhile (· == '0')).length, ?_⟩
  have hzeros : cs.rtakeWhile (· == '0') = List.replicate (cs.rtakeWhile (· == '0')).length '0' :=
    List.eq_replicate_iff.mpr ⟨rfl, fun c hc => by simpa using List.mem_rtakeWhile_imp hc⟩
  rw [← hzeros, trimmed, List.rdropWhile_append_rtakeWhile]

theorem getLast?_trimmed (cs : List Char) : (trimmed cs).getLast? ≠ some '0' := by
  intro hlast
  have hne : trimmed cs ≠ [] := by
    intro hnil
    simp [hnil] at hlast
  rw [List.getLast?_eq_some_getLast hne, Option.some.injEq] at hlast
  exact List.rdropWhile_last_not (· == '0') cs hne (beq_iff_eq.mpr hlast)

theorem decimal_eq (n places : Nat) :
    decimal n places =
      if n % 10 ^ places = 0 then Nat.toDigits 10 (n / 10 ^ places)
      else Nat.toDigits 10 (n / 10 ^ places) ++
        '.' :: trimmed (padded places (n % 10 ^ places)) := rfl

/-- The digits of a fraction that is not zero are as many as there are places, and what is left of
them without zeros at the end has the same value. -/
theorem fraction_spec (hplaces : 0 < places) (hn : n < 10 ^ places) (hpos : n ≠ 0) :
    (trimmed (padded places n)).all Char.isDigit ∧
      (trimmed (padded places n)).length ≤ places ∧ trimmed (padded places n) ≠ [] ∧
      (Number.ofDigits (trimmed (padded places n)) / 10 ^ (trimmed (padded places n)).length : ℚ) =
        n / 10 ^ places := by
  obtain ⟨count, hsplit⟩ := trimmed_append (padded places n)
  have hlength := length_padded hplaces hn
  have hdigits := all_isDigit_padded places n
  have hvalue := ofDigits_padded places n
  generalize trimmed (padded places n) = cs at hsplit
  rw [hsplit] at hlength hdigits hvalue
  rw [List.length_append, List.length_replicate] at hlength
  rw [Number.ofDigits_append, Number.ofDigits_zeros, List.length_replicate, Nat.add_zero] at hvalue
  rw [List.all_append, Bool.and_eq_true] at hdigits
  refine ⟨hdigits.1, by omega, ?_, ?_⟩
  · rintro rfl
    exact hpos (by simpa [Number.ofDigits] using hvalue.symm)
  · rw [← hlength, ← hvalue, pow_add]
    push_cast
    field_simp

/-- A number of parts is written as the number of units that they are. -/
theorem decimal_spec (n places : Nat) (hplaces : 0 < places ∨ n % 10 ^ places = 0) :
    ∃ q : Quantity, decimal n places = q.chars ∧ q.Trimmed places ∧ q.whole = n / 10 ^ places ∧
      q.value = n / 10 ^ places := by
  have hpow : (10 : ℚ) ^ places ≠ 0 := by positivity
  have hsplit : (n : ℚ) = (10 ^ places * (n / 10 ^ places : ℕ) + (n % 10 ^ places : ℕ) : ℚ) := by
    exact_mod_cast (Nat.div_add_mod n (10 ^ places)).symm
  by_cases hzero : n % 10 ^ places = 0
  · refine ⟨⟨n / 10 ^ places, []⟩, ?_, ⟨by simp, by simp, by simp⟩, rfl, ?_⟩
    · rw [decimal_eq, if_pos hzero]
      exact (List.append_nil _).symm
    · rw [hzero] at hsplit
      simp only [Quantity.value, Number.ofDigits, List.foldl_nil, hsplit]
      field_simp
      simp
  · have hpos : 0 < places := hplaces.resolve_right hzero
    have hlt : n % 10 ^ places < 10 ^ places := Nat.mod_lt _ (by positivity)
    obtain ⟨hdigits, hlength, hne, hvalue⟩ := fraction_spec hpos hlt hzero
    refine ⟨⟨n / 10 ^ places, trimmed (padded places (n % 10 ^ places))⟩, ?_,
      ⟨hdigits, hlength, getLast?_trimmed _⟩, rfl, ?_⟩
    · rw [decimal_eq, if_neg hzero, Quantity.chars, if_neg hne]
    · rw [Quantity.value, hvalue]
      conv_rhs => rw [hsplit]
      field_simp

end Padded

/-- The units that durations are written in. -/
inductive TimeUnit where
  | hour
  | minute
  | second
  | milli
  | micro
  | nano
  deriving DecidableEq

namespace TimeUnit

/-- The letters of a unit. -/
def symbol : TimeUnit → List Char
  | hour => ['h']
  | minute => ['m']
  | second => ['s']
  | milli => ['m', 's']
  | micro => ['µ', 's']
  | nano => ['n', 's']

/-- The nanoseconds of a unit. -/
def nanos : TimeUnit → Nat
  | hour => 60 * 60 * 10 ^ 9
  | minute => 60 * 10 ^ 9
  | second => 10 ^ 9
  | milli => 10 ^ 6
  | micro => 10 ^ 3
  | nano => 1

/-- The unit at the start of a text, and what stands behind it. -/
def read? : List Char → Option (TimeUnit × List Char)
  | 'm' :: 's' :: rest => some (milli, rest)
  | 'µ' :: 's' :: rest => some (micro, rest)
  | 'n' :: 's' :: rest => some (nano, rest)
  | 'h' :: rest => some (hour, rest)
  | 'm' :: rest => some (minute, rest)
  | 's' :: rest => some (second, rest)
  | _ => none

/-- A unit is read as itself, unless it is the minute and an `s` follows. -/
theorem read?_symbol (unit : TimeUnit) {rest : List Char} (h : rest.head? ≠ some 's') :
    read? (unit.symbol ++ rest) = some (unit, rest) := by
  cases unit with
  | minute =>
      cases rest with
      | nil => rfl
      | cons c rest =>
          have hc : c ≠ 's' := by simpa using h
          simp [symbol, read?, hc]
  | _ => rfl

theorem length_lt_of_read? {cs rest : List Char} {unit : TimeUnit}
    (h : read? cs = some (unit, rest)) : rest.length < cs.length := by
  unfold read? at h
  split at h <;> simp_all

end TimeUnit

/-- Whether a character belongs to the number in front of a unit. -/
def isNumberPart (c : Char) : Bool := c.isDigit || c == '.'

/-- The amount at the start of a text, in nanoseconds, and what stands behind it. -/
def readAmount? (cs : List Char) : Option (ℚ × List Char) :=
  match Number.readDecimal? (cs.takeWhile isNumberPart),
    TimeUnit.read? (cs.dropWhile isNumberPart) with
  | some d, some (unit, rest) => some (d.value * unit.nanos, rest)
  | _, _ => none

theorem length_lt_of_readAmount? {cs rest : List Char} {amount : ℚ}
    (h : readAmount? cs = some (amount, rest)) : rest.length < cs.length := by
  unfold readAmount? at h
  split at h
  · next d unit rest' _ hunit =>
      obtain ⟨-, rfl⟩ : _ ∧ rest' = rest := by simpa using h
      have hlength := (List.dropWhile_suffix (l := cs) isNumberPart).length_le
      exact (TimeUnit.length_lt_of_read? hunit).trans_le hlength
  · cases h

/-- The sum of the amounts that a text consists of, in nanoseconds. -/
def sumAmounts (cs : List Char) : Option ℚ :=
  if cs = [] then some 0
  else
    match _ : readAmount? cs with
    | some (amount, rest) => (sumAmounts rest).map (amount + ·)
    | none => none
termination_by cs.length
decreasing_by exact length_lt_of_readAmount? ‹_›

/-- The sum of the amounts of a text with their sign, in nanoseconds. -/
def signedSum : List Char → Option ℚ
  | '-' :: cs => (sumAmounts cs).map (-·)
  | cs => sumAmounts cs

theorem sumAmounts_nil : sumAmounts [] = some 0 := by rw [sumAmounts, if_pos rfl]

section Amount

variable {q : Quantity} (hq : q.fraction.all Char.isDigit)

include hq

theorem isNumberPart_of_mem_chars : ∀ c ∈ q.chars, isNumberPart c := by
  have hwhole : ∀ c ∈ Nat.toDigits 10 q.whole, isNumberPart c := fun c hc => by
    simp [isNumberPart, Number.isDigit_of_mem_toDigits hc]
  have hfraction : ∀ c ∈ q.fraction, isNumberPart c := fun c hc => by
    simp [isNumberPart, List.all_eq_true.mp hq c hc]
  intro c hc
  rcases List.mem_append.mp hc with hc | hc
  · exact hwhole c hc
  · split at hc
    · cases hc
    · rcases List.mem_cons.mp hc with rfl | hc
      · rfl
      · exact hfraction c hc

/-- An amount in front of others is read as what it is worth. -/
theorem readAmount?_chars (unit : TimeUnit) {rest : List Char} (hrest : rest.head? ≠ some 's') :
    readAmount? (q.chars ++ (unit.symbol ++ rest)) = some (q.value * unit.nanos, rest) := by
  have hnumber := isNumberPart_of_mem_chars hq
  have htake : (unit.symbol ++ rest).takeWhile isNumberPart = [] := by cases unit <;> rfl
  have hdrop : (unit.symbol ++ rest).dropWhile isNumberPart = unit.symbol ++ rest := by
    cases unit <;> rfl
  obtain ⟨d, hread, hvalue⟩ := Number.readDecimal?_chars hq
  rw [readAmount?, List.takeWhile_append_of_pos hnumber, List.dropWhile_append_of_pos hnumber,
    htake, hdrop, List.append_nil, hread, TimeUnit.read?_symbol unit hrest]
  simp only [hvalue]

theorem sumAmounts_chars (unit : TimeUnit) (rest : List Char) (hrest : rest.head? ≠ some 's') :
    sumAmounts (q.chars ++ (unit.symbol ++ rest)) =
      (sumAmounts rest).map (q.value * unit.nanos + ·) := by
  have hne : q.chars ++ (unit.symbol ++ rest) ≠ [] := by
    simp [Quantity.chars]
  rw [sumAmounts, if_neg hne]
  split
  · next amount rest' hread =>
      rw [readAmount?_chars hq unit hrest] at hread
      obtain ⟨rfl, rfl⟩ : _ ∧ rest = rest' := by simpa using hread
      rfl
  · next hread =>
      rw [readAmount?_chars hq unit hrest] at hread
      cases hread

/-- The last amount stands alone. -/
theorem sumAmounts_last (unit : TimeUnit) :
    sumAmounts (q.chars ++ unit.symbol) = some (q.value * unit.nanos) := by
  have hsum := sumAmounts_chars hq unit [] (by simp)
  simpa [sumAmounts_nil] using hsum

end Amount

/-- A whole number of units in front of other amounts. -/
theorem sumAmounts_whole (n : Nat) (unit : TimeUnit) (rest : List Char)
    (hrest : rest.head? ≠ some 's') :
    sumAmounts (Nat.toDigits 10 n ++ (unit.symbol ++ rest)) =
      (sumAmounts rest).map ((n * unit.nanos : ℚ) + ·) := by
  have hsum := sumAmounts_chars (q := ⟨n, []⟩) rfl unit rest hrest
  simpa [Quantity.chars, Quantity.value, Number.ofDigits] using hsum

/-- What starts with a number starts with a digit. -/
theorem head?_toDigits_append (n : Nat) (rest : List Char) {c : Char} (hc : c.isDigit = false) :
    (Nat.toDigits 10 n ++ rest).head? ≠ some c := by
  obtain ⟨d, ds, hdigits⟩ := List.exists_cons_of_ne_nil (Nat.toDigits_ne_nil (b := 10) (n := n))
  have hd : d.isDigit := Number.isDigit_of_mem_toDigits (n := n) (hdigits ▸ List.mem_cons_self)
  rw [hdigits]
  rintro ⟨⟩
  rw [hd] at hc
  cases hc

theorem head?_chars_append (q : Quantity) (rest : List Char) {c : Char} (hc : c.isDigit = false) :
    (q.chars ++ rest).head? ≠ some c := by
  rw [Quantity.chars, List.append_assoc]
  exact head?_toDigits_append _ _ hc

/-- The texts of durations other than zero, without a sign: hours, minutes and seconds, the last two
of them below 60, from the first one on that is not zero; or, below a second, thousandths of it or
of a smaller unit. -/
inductive Spelled : List Char → Prop where
  | hours {hours minutes : Nat} {seconds : Quantity} : 0 < hours → minutes < 60 →
      seconds.whole < 60 → seconds.Trimmed 9 →
      Spelled (Nat.toDigits 10 hours ++
        'h' :: (Nat.toDigits 10 minutes ++ 'm' :: (seconds.chars ++ ['s'])))
  | minutes {minutes : Nat} {seconds : Quantity} : 0 < minutes → minutes < 60 →
      seconds.whole < 60 → seconds.Trimmed 9 →
      Spelled (Nat.toDigits 10 minutes ++ 'm' :: (seconds.chars ++ ['s']))
  | seconds {seconds : Quantity} : 0 < seconds.whole → seconds.whole < 60 → seconds.Trimmed 9 →
      Spelled (seconds.chars ++ ['s'])
  | parts {unit : TimeUnit} {places : Nat} {amount : Quantity} :
      (unit, places) ∈ [(.milli, 6), (.micro, 3), (.nano, 0)] → 0 < amount.whole →
      amount.whole < 1000 → amount.Trimmed places → Spelled (amount.chars ++ unit.symbol)

theorem Spelled.head? {cs : List Char} (h : Spelled cs) : cs.head? ≠ some '-' := by
  cases h with
  | hours => exact head?_toDigits_append _ _ rfl
  | minutes => exact head?_toDigits_append _ _ rfl
  | seconds => exact head?_chars_append _ _ rfl
  | parts => exact head?_chars_append _ _ rfl

/-- The text of less than a second. -/
theorem spelled_parts {n places : Nat} (unit : TimeUnit)
    (hunit : (unit, places) ∈ [(.milli, 6), (.micro, 3), (.nano, 0)])
    (hlow : 10 ^ places ≤ n) (hhigh : n < 1000 * 10 ^ places) :
    Spelled (decimal n places ++ unit.symbol) ∧
      sumAmounts (decimal n places ++ unit.symbol) = some (n : ℚ) := by
  have hplaces : 0 < places ∨ n % 10 ^ places = 0 := by
    cases places with
    | zero => simp [Nat.mod_one]
    | succ => simp
  have hnanos : (unit.nanos : ℚ) = 10 ^ places := by
    simp only [List.mem_cons, Prod.mk.injEq, List.not_mem_nil, or_false] at hunit
    rcases hunit with ⟨rfl, rfl⟩ | ⟨rfl, rfl⟩ | ⟨rfl, rfl⟩ <;> norm_num [TimeUnit.nanos]
  obtain ⟨q, hchars, htrimmed, hwhole, hvalue⟩ := decimal_spec n places hplaces
  have hpow : (10 : ℚ) ^ places ≠ 0 := by positivity
  rw [hchars]
  refine ⟨.parts hunit ?_ ?_ htrimmed, ?_⟩
  · rw [hwhole]
    exact Nat.div_pos hlow (by positivity)
  · rw [hwhole]
    exact Nat.div_lt_of_lt_mul (by rwa [mul_comm] at hhigh)
  · rw [sumAmounts_last htrimmed.digits, hvalue, hnanos]
    congr 1
    field_simp

/-- The text of at least a second. -/
theorem spelled_clock {n : Nat} (hn : second ≤ n) :
    Spelled (magnitudeText n) ∧ sumAmounts (magnitudeText n) = some (n : ℚ) := by
  have hsmall : ¬ n < 1000 ∧ ¬ n < 1000000 ∧ ¬ n < second := by
    simp only [second] at hn ⊢
    omega
  obtain ⟨q, hchars, htrimmed, hwhole, hvalue⟩ := decimal_spec (n % minute) 9 (by simp)
  have hseconds : q.whole < 60 := by
    rw [hwhole, minute, second]
    omega
  have hminutes : n % hour / minute < 60 := by
    simp only [hour, minute, second]
    omega
  have hlast : sumAmounts (q.chars ++ ['s']) = some ((n % minute : ℕ) : ℚ) := by
    refine (sumAmounts_last htrimmed.digits .second).trans ?_
    rw [hvalue, TimeUnit.nanos]
    norm_num
  have hmiddle : sumAmounts (Nat.toDigits 10 (n % hour / minute) ++ 'm' :: (q.chars ++ ['s'])) =
      some ((n % hour : ℕ) : ℚ) := by
    have hhead : (q.chars ++ ['s']).head? ≠ some 's' := head?_chars_append q _ rfl
    have hsplit : n % hour / minute * TimeUnit.minute.nanos + n % minute = n % hour := by
      simp only [hour, minute, second, TimeUnit.nanos]
      omega
    refine (sumAmounts_whole _ .minute _ hhead).trans ?_
    rw [hlast, Option.map_some, Option.some.injEq]
    exact_mod_cast hsplit
  rw [magnitudeText, if_neg hsmall.1, if_neg hsmall.2.1, if_neg hsmall.2.2, hchars]
  dsimp only
  by_cases hhours : 0 < n / hour
  · have hsplit : n / hour * TimeUnit.hour.nanos + n % hour = n := by
      simp only [hour, minute, second, TimeUnit.nanos]
      omega
    rw [if_pos hhours]
    refine ⟨.hours hhours hminutes hseconds htrimmed, ?_⟩
    refine (sumAmounts_whole _ .hour _ (head?_toDigits_append _ _ rfl)).trans ?_
    rw [hmiddle, Option.map_some, Option.some.injEq]
    exact_mod_cast hsplit
  have hrest : n % hour = n := Nat.mod_eq_of_lt (by
    simp only [hour, minute, second] at hhours ⊢
    omega)
  rw [if_neg hhours]
  by_cases hpos : 0 < n % hour / minute
  · rw [if_pos hpos]
    exact ⟨.minutes hpos hminutes hseconds htrimmed, by rw [hmiddle, hrest]⟩
  · have hbelow : n % minute = n := Nat.mod_eq_of_lt (by
      simp only [hour, minute, second] at hpos hrest ⊢
      omega)
    rw [if_neg hpos]
    refine ⟨.seconds ?_ hseconds htrimmed, by rw [hlast, hbelow]⟩
    rw [hwhole, hbelow]
    exact Nat.div_pos hn (by positivity)

/-- The text of a number of nanoseconds has the form of a duration and sums up to the number. -/
theorem spelled_magnitudeText {n : Nat} (hn : n ≠ 0) :
    Spelled (magnitudeText n) ∧ sumAmounts (magnitudeText n) = some (n : ℚ) := by
  by_cases hnano : n < 1000
  · rw [magnitudeText, if_pos hnano]
    exact spelled_parts .nano (by simp) (by omega) (by omega)
  by_cases hmicro : n < 1000000
  · rw [magnitudeText, if_neg hnano, if_pos hmicro]
    exact spelled_parts .micro (by simp) (by omega) (by omega)
  by_cases hmilli : n < second
  · rw [magnitudeText, if_neg hnano, if_neg hmicro, if_pos hmilli]
    exact spelled_parts .milli (by simp) (by omega) (by simpa [second] using hmilli)
  · exact spelled_clock (Nat.le_of_not_lt hmilli)

theorem signedSum_of_head? {cs : List Char} (h : cs.head? ≠ some '-') :
    signedSum cs = sumAmounts cs := by
  unfold signedSum
  split
  · exact absurd rfl h
  · rfl

/-- The form of the characters of a duration. -/
theorem chars_spelled (d : Duration) :
    d.nanos = 0 ∧ d.chars = ['0', 's'] ∨ d.nanos ≠ 0 ∧
      ∃ cs, Spelled cs ∧ d.chars = (if d.nanos < 0 then ['-'] else []) ++ cs := by
  by_cases hzero : d.nanos = 0
  · exact .inl ⟨hzero, by rw [chars, if_pos hzero]⟩
  · refine .inr ⟨hzero, magnitudeText d.nanos.natAbs, ?_, by rw [chars, if_neg hzero]⟩
    exact (spelled_magnitudeText (Int.natAbs_ne_zero.mpr hzero)).1

theorem signedSum_chars (d : Duration) : signedSum d.chars = some (d.nanos : ℚ) := by
  by_cases hzero : d.nanos = 0
  · rw [chars, if_pos hzero, hzero, signedSum_of_head? (by decide)]
    simpa [TimeUnit.symbol, sumAmounts_nil] using sumAmounts_whole 0 .second [] (by simp)
  obtain ⟨hspelled, hsum⟩ := spelled_magnitudeText (Int.natAbs_ne_zero.mpr hzero)
  rw [chars, if_neg hzero]
  by_cases hneg : d.nanos < 0
  · have habs : ((d.nanos.natAbs : ℕ) : ℚ) = -d.nanos := by
      have hcast := congrArg (Int.cast (R := ℚ)) (Int.ofNat_natAbs_of_nonpos hneg.le)
      rwa [Int.cast_natCast, Int.cast_neg] at hcast
    rw [if_pos hneg, List.singleton_append, signedSum, hsum, Option.map_some, habs,
      InvolutiveNeg.neg_neg]
  · have habs : ((d.nanos.natAbs : ℕ) : ℚ) = d.nanos := by
      have hcast := congrArg (Int.cast (R := ℚ)) (Int.natAbs_of_nonneg (not_lt.mp hneg))
      rwa [Int.cast_natCast] at hcast
    rw [if_neg hneg, List.nil_append, signedSum_of_head? hspelled.head?, hsum, habs]

/-- The text of a duration is exact. It is `0s`, or else has the form of a duration, with a minus
sign if the duration is negative; adding up the amounts in the text with their sign gives the
nanoseconds of the duration; and so no other duration has the same text. -/
theorem text_lossless (d : Duration) :
    (d.nanos = 0 ∧ d.text = "0s" ∨ d.nanos ≠ 0 ∧
      ∃ cs, Spelled cs ∧ d.text.toList = (if d.nanos < 0 then ['-'] else []) ++ cs) ∧
    signedSum d.text.toList = some (d.nanos : ℚ) ∧
    ∀ e : Duration, e.text = d.text ↔ e = d := by
  have hchars : ∀ e : Duration, e.text.toList = e.chars := fun e => String.toList_ofList
  refine ⟨?_, ?_, fun e => ⟨fun hsame => ?_, congrArg text⟩⟩
  · rcases chars_spelled d with ⟨hzero, hd⟩ | hd
    · exact .inl ⟨hzero, by rw [text, hd]⟩
    · exact .inr (hchars d ▸ hd)
  · rw [hchars, signedSum_chars]
  · have hsum := signedSum_chars e
    rw [← hchars, hsame, hchars, signedSum_chars, Option.some.injEq] at hsum
    exact Duration.ext (by exact_mod_cast hsum.symm)

example : (ofNanos? (-3723500000000)).map text = some "-1h2m3.5s" := by decide +kernel

end Duration

end Phrasebook
