import Mathlib
import Phrasebook.Message
import Phrasebook.Proofs.Number.Remainder
import Phrasebook.Proofs.Translation.Keys
import Phrasebook.Time.Duration

/-!
# The units of a length of time

The message for another translation breaks a number of nanoseconds down into units. The larger units
are the integer parts of quotients of the nearest floating-point number, each of them rounded. That
does not set them apart from each other: as the multiples of a minute, an hour and a day are numbers
with a short significand, a quotient by them reaches an integer exactly where the dividend reaches
the multiple (`Rounds.floor_div`), and all larger units are those of one number of whole seconds
(`floor_units`).

The smaller units are taken from the integer. Where the number is so close below a multiple of a
second that the nearest floating-point number or its quotient is on the other side, the larger units
have a second more than what the smaller ones belong to.
-/

namespace Phrasebook

namespace Duration

open Number

/-- A length of time in units, each of them taken out of what the larger ones leave. -/
@[ext]
structure Units where
  years : Int64
  days : Int64
  hours : Int64
  minutes : Int64
  seconds : Int64
  millis : Int64
  micros : Int64
  nanos : Int64
  deriving DecidableEq

namespace Units

/-- The units by their names. -/
def named (u : Units) : List (String × Int64) :=
  [("years", u.years), ("days", u.days), ("hours", u.hours), ("minutes", u.minutes),
    ("seconds", u.seconds), ("millis", u.millis), ("micros", u.micros), ("nanos", u.nanos)]

/-- The whole seconds that the larger units add up to. -/
def wholeSeconds (u : Units) : ℤ :=
  (((u.years.toInt * 365 + u.days.toInt) * 24 + u.hours.toInt) * 60 + u.minutes.toInt) * 60 +
    u.seconds.toInt

/-- The nanoseconds that the units add up to. -/
def total (u : Units) : ℤ :=
  u.wholeSeconds * 10 ^ 9 + u.millis.toInt * 10 ^ 6 + u.micros.toInt * 10 ^ 3 + u.nanos.toInt

/-- Each unit is smaller than one of the next larger unit. -/
structure Bounded (u : Units) : Prop where
  days : u.days.toInt.natAbs < 365
  hours : u.hours.toInt.natAbs < 24
  minutes : u.minutes.toInt.natAbs < 60
  seconds : u.seconds.toInt.natAbs < 60
  millis : u.millis.toInt.natAbs < 1000
  micros : u.micros.toInt.natAbs < 1000
  nanos : u.nanos.toInt.natAbs < 1000

/-- A number of whole seconds and the nanoseconds of a length of time with a sign, in units. -/
def ofSeconds (negative : Bool) (s k : ℕ) : Units where
  years := clampInt64 (signed negative (s / 31536000))
  days := clampInt64 (signed negative (s / 86400 % 365))
  hours := clampInt64 (signed negative (s / 3600 % 24))
  minutes := clampInt64 (signed negative (s / 60 % 60))
  seconds := clampInt64 (signed negative (s % 60))
  millis := clampInt64 (signed negative (k / 1000000 % 1000))
  micros := clampInt64 (signed negative (k / 1000 % 1000))
  nanos := clampInt64 (signed negative (k % 1000))

section OfSeconds

variable {negative : Bool} {s k : ℕ}

theorem bounded_ofSeconds : (ofSeconds negative s k).Bounded := by
  constructor <;> simp only [ofSeconds] <;> rw [toInt_clampInt64_signed (by omega)] <;>
    unfold signed <;> split <;> omega

variable (hs : s < 2 ^ 63)

include hs

theorem wholeSeconds_ofSeconds : (ofSeconds negative s k).wholeSeconds = signed negative s := by
  simp only [wholeSeconds, ofSeconds]
  repeat rw [toInt_clampInt64_signed (by omega)]
  unfold signed
  split <;> omega

theorem total_ofSeconds :
    (ofSeconds negative s k).total = signed negative (s * 10 ^ 9 + k % 10 ^ 9) := by
  rw [total, wholeSeconds_ofSeconds hs]
  simp only [ofSeconds]
  repeat rw [toInt_clampInt64_signed (by omega)]
  unfold signed
  split <;> omega

/-- Each unit has the sign of the whole, or is zero. -/
theorem exists_signed_of_mem_ofSeconds : ∀ p ∈ (ofSeconds negative s k).named,
    ∃ n ≤ max s k, p.2.toInt = signed negative n := by
  simp only [named, ofSeconds, List.forall_mem_cons, List.not_mem_nil, false_implies,
    implies_true, and_true]
  refine ⟨?_, ?_, ?_, ?_, ?_, ?_, ?_, ?_⟩ <;>
    exact ⟨_, by omega, toInt_clampInt64_signed (by omega) negative⟩

end OfSeconds

end Units

section Seconds

variable {k : ℕ} {v y : ℚ} (hv : Rounds k v) (hy : Rounds (v / (10 ^ 9 : ℕ)) y)

include hv hy

/-- Rounding does not change the whole seconds by more than one. -/
theorem floor_seconds_near (hk : k ≤ 2 ^ 63) :
    ⌊y⌋₊ ≤ k / 10 ^ 9 + 1 ∧ k / 10 ^ 9 ≤ ⌊y⌋₊ + 1 := by
  obtain ⟨hlow, hhigh⟩ := abs_le.mp (hv.near (i := 10) (by exact_mod_cast hk))
  have hdivisor : (0 : ℚ) < (10 ^ 9 : ℕ) := by norm_num
  constructor
  · have hmiddle : y ≤ (2 * (k / 10 ^ 9) + 3 : ℕ) * 2 ^ (-1 : ℤ) := by
      refine hy.ge_of_ge (.of_le (-1) (by omega)) ((div_le_iff₀ hdivisor).mpr ?_)
      have hk' : (k : ℚ) + 1 ≤ ((k / 10 ^ 9 + 1) * 10 ^ 9 : ℕ) := by
        exact_mod_cast (by omega : k + 1 ≤ (k / 10 ^ 9 + 1) * 10 ^ 9)
      push_cast at hk' ⊢
      norm_num at hk' ⊢
      linarith
    refine Nat.lt_succ_iff.mp ((Nat.floor_lt hy.nonneg).mpr (lt_of_le_of_lt hmiddle ?_))
    push_cast
    norm_num
    linarith
  · rcases Nat.eq_zero_or_pos (k / 10 ^ 9) with hzero | hpos
    · omega
    · have hle : ((k / 10 ^ 9 - 1 : ℕ) : ℚ) ≤ y := by
        refine hy.le_of_le (.natCast (by omega)) ((le_div_iff₀ hdivisor).mpr ?_)
        have hk' : (((k / 10 ^ 9 - 1) * 10 ^ 9 + 1024 : ℕ) : ℚ) ≤ k := by
          exact_mod_cast (by omega : (k / 10 ^ 9 - 1) * 10 ^ 9 + 1024 ≤ k)
        push_cast at hk' ⊢
        linarith
      have hfloor := Nat.le_floor hle
      omega

/-- Below the first multiple of a second that is reached by rounding only, it does not change them
at all. -/
theorem floor_seconds (hk : k ≤ 9007199999999998) : ⌊y⌋₊ = k / 10 ^ 9 := by
  have hdivisor : (0 : ℚ) < (10 ^ 9 : ℕ) := by norm_num
  have multiple : ∀ j ≤ 9007200, Short (j * 10 ^ 9 : ℕ) := fun j hj =>
    .of_eq_mul (m := j * 1953125) (i := 9) (by ring) (by omega)
  have hle : ((k / 10 ^ 9 : ℕ) : ℚ) ≤ y := by
    refine hy.le_of_le (.natCast (by omega)) ((le_div_iff₀ hdivisor).mpr ?_)
    exact_mod_cast hv.le_of_le (multiple (k / 10 ^ 9) (by omega))
      (by exact_mod_cast Nat.div_mul_le_self k (10 ^ 9))
  have hlt : v < ((k / 10 ^ 9 + 1) * 10 ^ 9 : ℕ) := by
    rcases Nat.lt_or_ge (2 ^ 53) k with hlarge | hsmall
    · have heven : Short (9007199999999998 : ℕ) :=
        .of_eq_mul (m := 4503599999999999) (i := 1) (by norm_num) (by norm_num)
      refine lt_of_le_of_lt (hv.ge_of_ge heven (by exact_mod_cast hk)) ?_
      exact_mod_cast (by omega : 9007199999999998 < (k / 10 ^ 9 + 1) * 10 ^ 9)
    · refine lt_of_le_of_lt (hv.ge_of_ge (.natCast hsmall) le_rfl) ?_
      exact_mod_cast (by omega : k < (k / 10 ^ 9 + 1) * 10 ^ 9)
  refine le_antisymm (Nat.lt_succ_iff.mp ((Nat.floor_lt hy.nonneg).mpr ?_)) (Nat.le_floor hle)
  have hiff := hy.le_iff (j := (k / 10 ^ 9 + 1 : ℕ)) hv.short hdivisor (.natCast (by omega))
    (by exact_mod_cast multiple (k / 10 ^ 9 + 1) (by omega))
  rw [← not_le, Nat.succ_eq_add_one, hiff, not_le]
  exact_mod_cast hlt

end Seconds

/-- However each of the larger units is rounded, it is a quotient of the same whole seconds. -/
theorem floor_units {k : ℕ} {v h d y m s : ℚ} (hk : k ≤ 2 ^ 63) (hv : Rounds k v)
    (hh : Rounds (v / (3600000000000 : ℕ)) h) (hd : Rounds (h / (24 : ℕ)) d)
    (hy : Rounds (d / (365 : ℕ)) y) (hm : Rounds (v / (60000000000 : ℕ)) m)
    (hs : Rounds (v / (1000000000 : ℕ)) s) :
    ⌊m⌋₊ = ⌊s⌋₊ / 60 ∧ ⌊h⌋₊ = ⌊s⌋₊ / 3600 ∧ ⌊d⌋₊ = ⌊s⌋₊ / 86400 ∧ ⌊y⌋₊ = ⌊s⌋₊ / 31536000 := by
  have hle := hv.le_two_pow (i := 63) (by exact_mod_cast hk)
  have hfloor : ⌊v⌋₊ ≤ 2 ^ 63 := Nat.floor_le_of_le (by exact_mod_cast hle)
  have small : ∀ {j : ℕ}, j ≤ 2 ^ 53 → Short j := Short.natCast
  have hours := hh.floor_div (k := 1) (b := 2 ^ 22) hv.short (by norm_num) (by norm_num)
    (lt_of_le_of_lt hle (by norm_num))
    fun j hj => ⟨small (by omega), .of_eq_mul (m := j * 439453125) (i := 13) (by ring) (by omega)⟩
  have minutes := hm.floor_div (k := 1) (b := 2 ^ 28) hv.short (by norm_num) (by norm_num)
    (lt_of_le_of_lt hle (by norm_num))
    fun j hj => ⟨small (by omega), .of_eq_mul (m := j * 29296875) (i := 11) (by ring) (by omega)⟩
  have seconds := hs.floor_div (k := 60) (b := 2 ^ 28) hv.short (by norm_num) (by norm_num)
    (lt_of_le_of_lt hle (by norm_num))
    fun j hj => ⟨small (by omega), .of_eq_mul (m := j * 29296875) (i := 11) (by ring) (by omega)⟩
  have hh' : h < (2 ^ 22 * (1 * 24) : ℕ) := by
    refine (Nat.floor_lt hh.nonneg).mp ?_
    omega
  have days := hd.floor_div (k := 1) (b := 2 ^ 22) hh.short (by norm_num) (by norm_num) hh'
    fun j hj => ⟨small (by omega), small (by omega)⟩
  have hd' : d < (2 ^ 22 * (1 * 365) : ℕ) := by
    refine (Nat.floor_lt hd.nonneg).mp ?_
    omega
  have years := hy.floor_div (k := 1) (b := 2 ^ 22) hd.short (by norm_num) (by norm_num) hd'
    fun j hj => ⟨small (by omega), small (by omega)⟩
  omega

theorem toInt_div_eq (n : Int64) {d : Int64} {k : ℕ} (hd : d.toInt = k) :
    (n / d).toInt = signed (n.toInt < 0) (n.toInt.natAbs / k) := by
  have hne : d ≠ -1 := by
    rintro rfl
    have hneg : (-1 : Int64).toInt = -1 := by decide
    omega
  rw [Int64.toInt_div_of_ne_right _ _ hne, hd, ← signed_tdiv, signed_natAbs]

/-- A group of digits of a machine integer. -/
theorem group_eq (n : Int64) {d : Int64} {k : ℕ} (hd : d.toInt = k) :
    n / d % 1000 = clampInt64 (signed (n.toInt < 0) (n.toInt.natAbs / k % 1000)) := by
  have hthousand : (1000 : Int64).toInt = (1000 : ℕ) := by decide
  refine eq_clampInt64 ?_ (by omega)
  rw [Int64.toInt_mod, toInt_div_eq n hd, hthousand, signed_tmod]

/-- The units that a number of nanoseconds is broken down into. -/
def units (n : Int64) : Units where
  years := truncateToInt64 (ofInt64 n / 3600000000000 / 24 / 365)
  days := truncateToInt64 (remainder (ofInt64 n / 3600000000000 / 24) 365)
  hours := truncateToInt64 (remainder (ofInt64 n / 3600000000000) 24)
  minutes := truncateToInt64 (remainder (ofInt64 n / 60000000000) 60)
  seconds := truncateToInt64 (remainder (ofInt64 n / 1000000000) 60)
  millis := n / 1000000 % 1000
  micros := n / 1000 % 1000
  nanos := n % 1000

theorem fields_eq (n : Int64) : fields n = (units n).named.map fun p => (p.1, .int p.2) := rfl

/-- The units of a number of nanoseconds are those of its digits and of whole seconds near to its
own. -/
theorem exists_units_eq (n : Int64) : ∃ s : ℕ,
    s ≤ n.toInt.natAbs / 10 ^ 9 + 1 ∧ n.toInt.natAbs / 10 ^ 9 ≤ s + 1 ∧
    (n.toInt.natAbs ≤ 9007199999999998 → s = n.toInt.natAbs / 10 ^ 9) ∧
    truncateToInt64 (ofInt64 n / 1000000000) = clampInt64 (signed (n.toInt < 0) s) ∧
    units n = .ofSeconds (n.toInt < 0) s n.toInt.natAbs := by
  by_cases hn : n.toInt = 0
  · -- Zero has no full significand, and is divided as it is.
    obtain rfl : n = 0 := Int64.toInt_inj.mp hn
    exact ⟨0, by decide, by decide, by decide, by decide +kernel, by decide +kernel⟩
  · have hk : n.toInt.natAbs ≤ 2 ^ 63 := by
      have hlow := n.le_toInt
      have hhigh := n.toInt_lt
      omega
    obtain ⟨v, hv, hn⟩ := HasMagnitude.exists_ofInt64 hn
    obtain ⟨h, hh, hhours⟩ := hv.exists_div (c := 3600000000000) (by omega) (by omega) (by omega)
    obtain ⟨d, hd, hdays⟩ := hh.exists_div (c := 24) (by omega) (by omega) (by omega)
    obtain ⟨y, hy, hyears⟩ := hd.exists_div (c := 365) (by omega) (by omega) (by omega)
    obtain ⟨m, hm, hminutes⟩ := hv.exists_div (c := 60000000000) (by omega) (by omega) (by omega)
    obtain ⟨s, hs, hseconds⟩ := hv.exists_div (c := 1000000000) (by omega) (by omega) (by omega)
    obtain ⟨minutes, hours, days, years⟩ := floor_units hk hn hhours hdays hyears hminutes hseconds
    obtain ⟨hupper, hlower⟩ := floor_seconds_near hn hseconds hk
    refine ⟨⌊s⌋₊, hupper, hlower, floor_seconds hn hseconds, hs.truncateToInt64_eq, ?_⟩
    have year := hy.truncateToInt64_eq
    have day := hd.truncateToInt64_remainder (c := 365) (by omega) (by omega) (by omega)
    have hour := hh.truncateToInt64_remainder (c := 24) (by omega) (by omega) (by omega)
    have minute := hm.truncateToInt64_remainder (c := 60) (by omega) (by omega) (by omega)
    have second := hs.truncateToInt64_remainder (c := 60) (by omega) (by omega) (by omega)
    rw [years] at year
    rw [days] at day
    rw [hours] at hour
    rw [minutes] at minute
    have milli := group_eq n (d := 1000000) (k := 1000000) (by decide)
    have micro := group_eq n (d := 1000) (k := 1000) (by decide)
    have nano := group_eq n (d := 1) (k := 1) (by decide)
    rw [Int64.div_one, Nat.div_one] at nano
    exact Units.ext year day hour minute second milli micro nano

theorem bounded_units (n : Int64) : (units n).Bounded := by
  obtain ⟨s, -, -, -, -, hunits⟩ := exists_units_eq n
  rw [hunits]
  exact Units.bounded_ofSeconds

/-- The whole seconds of a machine integer are few. -/
theorem lt_of_le_seconds {n : Int64} {s : ℕ} (h : s ≤ n.toInt.natAbs / 10 ^ 9 + 1) :
    s < 2 ^ 63 := by
  have hlow := n.le_toInt
  have hhigh := n.toInt_lt
  omega

theorem sign_units (n : Int64) : ∀ p ∈ (units n).named,
    (0 ≤ n.toInt → 0 ≤ p.2.toInt) ∧ (n.toInt ≤ 0 → p.2.toInt ≤ 0) := by
  obtain ⟨s, hupper, -, hexact, -, hunits⟩ := exists_units_eq n
  intro p hp
  rw [hunits] at hp
  obtain ⟨k, hk, hsign⟩ := Units.exists_signed_of_mem_ofSeconds (lt_of_le_seconds hupper) p hp
  rw [hsign]
  constructor
  · intro hnonneg
    rw [decide_eq_false (by omega)]
    exact Int.natCast_nonneg k
  · intro hnonpos
    rcases lt_or_eq_of_le hnonpos with hlt | hzero
    · rw [decide_eq_true hlt]
      exact Int.neg_nonpos_of_nonneg (Int.natCast_nonneg k)
    · -- All units of nothing are zero.
      obtain rfl : k = 0 := by omega
      rw [hzero]
      decide

/-- The units add up to the number or to a second more or less, as their whole seconds do. -/
theorem total_units (n : Int64) :
    ((units n).total = n.toInt ∨ (units n).total = n.toInt + 10 ^ 9 ∨
      (units n).total = n.toInt - 10 ^ 9) ∧
    ((units n).total = n.toInt ↔ truncateToInt64 (ofInt64 n / 1000000000) = n / 1000000000) ∧
    (n.toInt.natAbs ≤ 9007199999999998 → (units n).total = n.toInt) := by
  obtain ⟨s, hupper, hlower, hexact, htruncate, hunits⟩ := exists_units_eq n
  have hs := lt_of_le_seconds hupper
  have hn := signed_natAbs n.toInt
  have htotal : (units n).total =
      signed (n.toInt < 0) (s * 10 ^ 9 + n.toInt.natAbs % 10 ^ 9) := by
    rw [hunits, Units.total_ofSeconds hs]
  have hiff : (units n).total = n.toInt ↔ s = n.toInt.natAbs / 10 ^ 9 := by
    calc (units n).total = n.toInt ↔
          signed (n.toInt < 0) (s * 10 ^ 9 + n.toInt.natAbs % 10 ^ 9) =
            signed (n.toInt < 0) n.toInt.natAbs := by rw [htotal, hn]
      _ ↔ s = n.toInt.natAbs / 10 ^ 9 := by rw [signed_inj]; omega
  refine ⟨?_, ?_, fun hsmall => hiff.mpr (hexact hsmall)⟩
  · rw [htotal]
    generalize decide (n.toInt < 0) = negative at hn
    cases negative <;> simp only [signed, if_true, if_false, Bool.false_eq_true] at hn ⊢ <;> omega
  · have hquotient := toInt_div_eq n (d := 1000000000) (k := 10 ^ 9) (by decide)
    rw [hiff, htruncate, ← Int64.toInt_inj, toInt_clampInt64_signed hs, hquotient, signed_inj]

theorem find?_nested_of_mem {n : Int64} {value : Value} (key option : Value)
    (hfields : value.timeFields = fields n) {p : String × Int64} (hp : p ∈ (units n).named) :
    (Message.nested key value option).vars.find? p.1 = some (.int p.2) := by
  refine Dictionary.find?_ofList_of_mem ?_ ?_
  · rw [hfields]
    change ["value", "opt", "years", "days", "hours", "minutes", "seconds", "millis", "micros",
      "nanos"].Nodup
    decide
  · rw [hfields, fields_eq]
    exact .tail _ (.tail _ (List.mem_map.mpr ⟨p, hp, rfl⟩))

/-- The message for another translation breaks a number of nanoseconds down into units. None of them
has the opposite sign, each is smaller than one of the next larger unit, and together they are the
number itself or a second more or less. They are the number itself where the whole seconds of the
nearest floating-point number are its own, and so for each number below the first one whose nearest
floating-point number is the next multiple of a second. -/
theorem units_add_up {n : Int64} {value : Value} (key option : Value)
    (hvalue : value = .int n ∨ ∃ d : Duration, d.nanos = n.toInt ∧ value = .duration d) :
    ∃ u : Units,
      (∀ p ∈ u.named, (Message.nested key value option).vars.find? p.1 = some (.int p.2) ∧
        (0 ≤ n.toInt → 0 ≤ p.2.toInt) ∧ (n.toInt ≤ 0 → p.2.toInt ≤ 0)) ∧
      u.Bounded ∧
      (u.total = n.toInt ∨ u.total = n.toInt + 10 ^ 9 ∨ u.total = n.toInt - 10 ^ 9) ∧
      (u.total = n.toInt ↔ truncateToInt64 (ofInt64 n / 1000000000) = n / 1000000000) ∧
      (n.toInt.natAbs ≤ 9007199999999998 → u.total = n.toInt) := by
  have hfields : value.timeFields = fields n := by
    rcases hvalue with rfl | ⟨d, hd, rfl⟩
    · rfl
    · rw [Value.timeFields, toInt64, hd, clampInt64_toInt]
  exact ⟨units n,
    fun p hp => ⟨find?_nested_of_mem key option hfields hp, sign_units n p hp⟩,
    bounded_units n, total_units n⟩

theorem units_add_up_of_duration :
    ∃ u : Units,
      (∀ p ∈ u.named,
        (Message.nested (.text "k") (.duration ⟨9007199999999998, by decide, by decide⟩)
          .empty).vars.find? p.1 = some (.int p.2) ∧ 0 ≤ p.2.toInt) ∧
      u.Bounded ∧ u.total = 9007199999999998 := by
  obtain ⟨u, hvars, hbounded, -, -, hexact⟩ :=
    units_add_up (n := 9007199999999998) (.text "k") .empty
      (.inr ⟨⟨9007199999999998, by decide, by decide⟩, by decide, rfl⟩)
  exact ⟨u, fun p hp => ⟨(hvars p hp).1, (hvars p hp).2.1 (by decide)⟩, hbounded,
    hexact (by decide)⟩

/-- A nanosecond later the larger units have a second more than the number. -/
example : (units 9007199999999999).total = 9007199999999999 + 10 ^ 9 := by decide +kernel

end Duration

end Phrasebook
