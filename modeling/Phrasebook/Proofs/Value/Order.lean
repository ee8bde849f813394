import Mathlib
import Phrasebook.Value.Order

/-!
# The order within a kind

The values of a kind have an order (`Value.Below`): false is below true, integers are ordered by
size, texts by their characters, moments by their instants and durations by their lengths. Comparing
two values of a kind follows that order, with one exception (`Value.compares_of_alike`). Moments are
compared by their seconds, and durations by their nanoseconds as far as these fit into 64 bits. Of
two that are not equal but differ only in what that leaves out (`Value.Blurred`), neither is less
than the other, and each is greater.
-/

namespace Phrasebook

namespace Moment

/-- Whether a moment comes before another one: in an earlier second, or earlier in the same one. -/
def Before (m n : Moment) : Prop :=
  m.secs < n.secs ∨ m.secs = n.secs ∧ m.nanos < n.nanos

/-- With fractions below a second, moments are ordered as their nanoseconds since 1970. -/
theorem before_iff {m n : Moment} (hm : m.nanos < Duration.second)
    (hn : n.nanos < Duration.second) :
    m.Before n ↔
      m.secs.toInt * Duration.second + m.nanos < n.secs.toInt * Duration.second + n.nanos := by
  rw [Before, Int64.lt_iff_toInt_lt, ← Int64.toInt_inj]
  simp only [Duration.second] at *
  omega

end Moment

namespace Duration

variable {d e : Duration}

/-- Two durations have the same number of nanoseconds in 64 bits if they are equal, or beyond the
same end of what fits. -/
theorem toInt64_eq_iff : d.toInt64 = e.toInt64 ↔ d.nanos = e.nanos ∨
    Number.maxInt64 ≤ d.nanos ∧ Number.maxInt64 ≤ e.nanos ∨
    d.nanos ≤ Number.minInt64 ∧ e.nanos ≤ Number.minInt64 := by
  have hrange : Number.minInt64 < Number.maxInt64 := by decide
  rw [← Int64.toInt_inj, toInt64, toInt64, Number.toInt_clampInt64, Number.toInt_clampInt64]
  omega

theorem toInt64_lt_iff : d.toInt64 < e.toInt64 ↔ d.nanos < e.nanos ∧ d.toInt64 ≠ e.toInt64 := by
  rw [Int64.lt_iff_toInt_lt, ne_eq, ← Int64.toInt_inj, toInt64, toInt64, Number.toInt_clampInt64,
    Number.toInt_clampInt64]
  omega

end Duration

namespace Value

/-- Two values are of one kind that has an order. Raw text is text. -/
inductive Alike : Value → Value → Prop where
  | bool (b c : Bool) : Alike (.bool b) (.bool c)
  | int (m n : Int64) : Alike (.int m) (.int n)
  | text {v w : Value} {s t : String} (hv : v.text? = some s) (hw : w.text? = some t) : Alike v w
  | time (m n : Moment) : Alike (.time m) (.time n)
  | duration (d e : Duration) : Alike (.duration d) (.duration e)

theorem Alike.symm {a b : Value} (h : a.Alike b) : b.Alike a := by
  cases h with
  | bool b c => exact .bool c b
  | int m n => exact .int n m
  | text hv hw => exact .text hw hv
  | time m n => exact .time n m
  | duration d e => exact .duration e d

/-- The order of the values of a kind. -/
inductive Below : Value → Value → Prop where
  | bool : Below (.bool false) (.bool true)
  | int {m n : Int64} (h : m < n) : Below (.int m) (.int n)
  | text {v w : Value} {s t : String} (hv : v.text? = some s) (hw : w.text? = some t) (h : s < t) :
      Below v w
  | time {m n : Moment} (h : m.Before n) : Below (.time m) (.time n)
  | duration {d e : Duration} (h : d.nanos < e.nanos) : Below (.duration d) (.duration e)

/-- Two values that are not equal, but the same as far as comparisons look: moments of one second,
and durations that are too long for 64 bits in the same direction. -/
inductive Blurred : Value → Value → Prop where
  | time {m n : Moment} (hsecs : m.secs = n.secs) (hne : m.nanos ≠ n.nanos) :
      Blurred (.time m) (.time n)
  | longest {d e : Duration} (hd : Number.maxInt64 ≤ d.nanos) (he : Number.maxInt64 ≤ e.nanos)
      (hne : d.nanos ≠ e.nanos) : Blurred (.duration d) (.duration e)
  | shortest {d e : Duration} (hd : d.nanos ≤ Number.minInt64) (he : e.nanos ≤ Number.minInt64)
      (hne : d.nanos ≠ e.nanos) : Blurred (.duration d) (.duration e)

section

variable {v w : Value} {s t : String} (hv : v.text? = some s) (hw : w.text? = some t)

include hv hw

theorem less_of_text? : v.less w ↔ s < t := by
  cases v <;> cases hv <;> cases w <;> cases hw <;> simp [less]

theorem equal_of_text? : v.equal w ↔ s = t := by
  cases v <;> cases hv <;> cases w <;> cases hw <;> simp [equal]

theorem below_of_text? : v.Below w ↔ s < t := by
  constructor
  · intro h
    cases h with
    | text hv' hw' h =>
        rw [hv, Option.some.injEq] at hv'
        rw [hw, Option.some.injEq] at hw'
        rwa [hv', hw']
    | _ => cases hv
  · exact .text hv hw

omit hw in
theorem not_blurred_of_text? : ¬ v.Blurred w := by
  intro h
  cases h <;> cases hv

end

theorem less_bool {b c : Bool} : (bool b).less (bool c) ↔ b = false ∧ c = true := by
  revert b c
  decide

theorem less_int {m n : Int64} : (int m).less (int n) ↔ m < n := decide_eq_true_iff

theorem less_time {m n : Moment} : (time m).less (time n) ↔ m.secs < n.secs := decide_eq_true_iff

theorem less_duration {d e : Duration} :
    (duration d).less (duration e) ↔ d.toInt64 < e.toInt64 := decide_eq_true_iff

theorem below_bool {b c : Bool} : (bool b).Below (bool c) ↔ b = false ∧ c = true := by
  constructor
  · intro h
    cases h with
    | bool => exact ⟨rfl, rfl⟩
    | text hv => cases hv
  · rintro ⟨rfl, rfl⟩
    exact .bool

theorem below_int {m n : Int64} : (int m).Below (int n) ↔ m < n := by
  constructor
  · intro h
    cases h with
    | int h => exact h
    | text hv => cases hv
  · exact .int

theorem below_time {m n : Moment} : (time m).Below (time n) ↔ m.Before n := by
  constructor
  · intro h
    cases h with
    | time h => exact h
    | text hv => cases hv
  · exact .time

theorem below_duration {d e : Duration} : (duration d).Below (duration e) ↔ d.nanos < e.nanos := by
  constructor
  · intro h
    cases h with
    | duration h => exact h
    | text hv => cases hv
  · exact .duration

theorem blurred_time {m n : Moment} :
    (time m).Blurred (time n) ↔ m.secs = n.secs ∧ m.nanos ≠ n.nanos := by
  constructor
  · rintro ⟨hsecs, hne⟩
    exact ⟨hsecs, hne⟩
  · rintro ⟨hsecs, hne⟩
    exact .time hsecs hne

theorem blurred_duration {d e : Duration} :
    (duration d).Blurred (duration e) ↔ d.toInt64 = e.toInt64 ∧ d.nanos ≠ e.nanos := by
  rw [Duration.toInt64_eq_iff]
  constructor
  · rintro (_ | ⟨hd, he, hne⟩ | ⟨hd, he, hne⟩)
    · exact ⟨.inr (.inl ⟨hd, he⟩), hne⟩
    · exact ⟨.inr (.inr ⟨hd, he⟩), hne⟩
  · rintro ⟨hsame | ⟨hd, he⟩ | ⟨hd, he⟩, hne⟩
    · exact absurd hsame hne
    · exact .longest hd he hne
    · exact .shortest hd he hne

variable {a b c : Value}

theorem less_iff (h : a.Alike b) : a.less b ↔ a.Below b ∧ ¬ a.Blurred b := by
  cases h with
  | bool b c =>
      rw [less_bool, below_bool]
      exact (and_iff_left nofun).symm
  | int m n =>
      rw [less_int, below_int]
      exact (and_iff_left nofun).symm
  | text hv hw =>
      rw [less_of_text? hv hw, below_of_text? hv hw]
      exact (and_iff_left (not_blurred_of_text? hv)).symm
  | time m n =>
      rw [less_time, below_time, blurred_time, Moment.Before]
      simp only [Int64.lt_iff_toInt_lt, ← Int64.toInt_inj]
      omega
  | duration d e =>
      rw [less_duration, below_duration, blurred_duration, Duration.toInt64_lt_iff]
      constructor
      · rintro ⟨hlt, hne⟩
        exact ⟨hlt, fun h => hne h.1⟩
      · rintro ⟨hlt, h⟩
        exact ⟨hlt, fun hsame => h ⟨hsame, hlt.ne⟩⟩

theorem equal_iff (h : a.Alike b) : a.equal b ↔ ¬ a.Below b ∧ ¬ b.Below a := by
  cases h with
  | bool b c =>
      rw [below_bool, below_bool]
      revert b c
      decide
  | int m n =>
      rw [below_int, below_int]
      simp only [equal, toInt, beq_iff_eq, Int64.lt_iff_toInt_lt, ← Int64.toInt_inj]
      omega
  | text hv hw =>
      rw [equal_of_text? hv hw, below_of_text? hv hw, below_of_text? hw hv, String.not_lt,
        String.not_lt]
      exact ⟨fun h => h ▸ ⟨String.le_refl _, String.le_refl _⟩, fun h => String.le_antisymm h.2 h.1⟩
  | time m n =>
      rw [below_time, below_time, Moment.Before, Moment.Before]
      simp only [equal, Moment.sameInstant, Bool.and_eq_true, beq_iff_eq, Int64.lt_iff_toInt_lt,
        ← Int64.toInt_inj]
      omega
  | duration d e =>
      rw [below_duration, below_duration]
      simp only [equal, beq_iff_eq]
      omega

theorem Below.asymm (h : a.Below b) : ¬ b.Below a := by
  cases h with
  | bool => simp [below_bool]
  | int h =>
      rw [below_int]
      exact Int64.lt_asymm h
  | text hv hw h =>
      rw [below_of_text? hw hv]
      exact String.lt_asymm h
  | time h =>
      rw [below_time]
      simp only [Moment.Before, Int64.lt_iff_toInt_lt, ← Int64.toInt_inj] at *
      omega
  | duration h =>
      rw [below_duration]
      omega

theorem Blurred.symm (h : a.Blurred b) : b.Blurred a := by
  cases h with
  | time hsecs hne => exact .time hsecs.symm hne.symm
  | longest hd he hne => exact .longest he hd hne.symm
  | shortest hd he hne => exact .shortest he hd hne.symm

theorem Blurred.not_equal (h : a.Blurred b) : ¬ a.equal b := by
  cases h with
  | time hsecs hne => simp [equal, Moment.sameInstant, hne]
  | longest hd he hne => simp [equal, hne]
  | shortest hd he hne => simp [equal, hne]

/-- A value is greater than another one if that one is less, or if comparisons cannot tell which of
the two is. -/
theorem greater_iff (h : a.Alike b) : a.greater b ↔ b.less a ∨ a.Blurred b := by
  have hgreater : a.greater b ↔ ¬ a.less b ∧ ¬ a.equal b := by simp [greater]
  rw [hgreater, less_iff h, less_iff h.symm]
  by_cases hblurred : a.Blurred b
  · simp [hblurred, hblurred.not_equal]
  · have hback : ¬ b.Blurred a := fun h => hblurred h.symm
    rw [equal_iff h]
    have hasymm : b.Below a → ¬ a.Below b := Below.asymm
    tauto

theorem less_trans (hab : a.Alike b) (hbc : b.Alike c) (h : a.less b) (h' : b.less c) :
    a.less c := by
  cases hab with
  | bool =>
      cases hbc with
      | bool =>
          rw [less_bool] at *
          exact ⟨h.1, h'.2⟩
      | text hv => cases hv
  | int =>
      cases hbc with
      | int =>
          rw [less_int] at *
          exact Int64.lt_trans h h'
      | text hv => cases hv
  | text hv hw =>
      cases hbc with
      | text hv' hw' =>
          rw [less_of_text? hv hw] at h
          rw [less_of_text? hw hw'] at h'
          rw [less_of_text? hv hw']
          exact String.lt_trans h h'
      | _ => cases hw
  | time =>
      cases hbc with
      | time =>
          rw [less_time] at *
          exact Int64.lt_trans h h'
      | text hv => cases hv
  | duration =>
      cases hbc with
      | duration =>
          rw [less_duration] at *
          exact Int64.lt_trans h h'
      | text hv => cases hv

/-- How two values of a kind compare, by their order and by what comparisons leave out. -/
structure Compares (a b : Value) : Prop where
  exactly_one : [a.less b, a.equal b, a.greater b].count true = 1
  equal_iff : a.equal b ↔ ¬ a.Below b ∧ ¬ b.Below a
  less_iff : a.less b ↔ a.Below b ∧ ¬ a.Blurred b
  greater_iff : a.greater b ↔ b.less a ∨ a.Blurred b

/-- Of two values of a kind exactly one of less, equal and greater holds, and being less is
transitive. They are equal if neither is below the other. Less is below, and greater is the reverse
of less, except for moments of one second and durations beyond 64 bits: if two of them are not
equal, each is greater than the other. -/
theorem compares_of_alike (hab : a.Alike b) (hbc : b.Alike c) :
    Compares a b ∧ (a.less b → b.less c → a.less c) := by
  refine ⟨⟨?_, equal_iff hab, less_iff hab, greater_iff hab⟩, less_trans hab hbc⟩
  have hnot : ¬ (a.less b ∧ a.equal b) := by
    rw [less_iff hab, equal_iff hab]
    tauto
  cases hless : a.less b <;> cases hequal : a.equal b <;> simp_all [greater]

/-- The start of 1970, half a second later, and half a second after that on the clocks of Tokyo. -/
def firstSecond : Value × Value × Value :=
  (.time ⟨0, 0, .utc⟩, .time ⟨0, 500000000, .utc⟩, .time ⟨1, 0, .tokyo⟩)

theorem compares_of_alike_of_firstSecond :
    let (start, half, next) := firstSecond
    start.Below half ∧ ¬ start.less half ∧ start.greater half ∧ half.greater start ∧
      start.less next := by
  have hblurred : Blurred (.time ⟨0, 0, .utc⟩) (.time ⟨0, 500000000, .utc⟩) :=
    .time rfl (by decide)
  have hforth := (compares_of_alike (.time ⟨0, 0, .utc⟩ ⟨0, 500000000, .utc⟩)
    (.time _ ⟨1, 0, .tokyo⟩)).1
  have hback := (compares_of_alike (.time ⟨0, 500000000, .utc⟩ ⟨0, 0, .utc⟩)
    (.time _ ⟨1, 0, .tokyo⟩)).1
  have hnext := (compares_of_alike (.time ⟨0, 0, .utc⟩ ⟨1, 0, .tokyo⟩)
    (.time _ ⟨1, 0, .tokyo⟩)).1
  refine ⟨.time (.inr ⟨rfl, by decide⟩), ?_, ?_, ?_, ?_⟩
  · exact fun hless => (hforth.less_iff.mp hless).2 hblurred
  · exact hforth.greater_iff.mpr (.inr hblurred)
  · exact hback.greater_iff.mpr (.inr hblurred.symm)
  · refine hnext.less_iff.mpr ⟨.time (.inl (by decide)), ?_⟩
    rw [blurred_time]
    exact fun h => absurd h.1 (by decide)

end Value

end Phrasebook
