import Mathlib
import Phrasebook.Value.Arithmetic
import Phrasebook.Value.Order
import Phrasebook.Proofs.Number.Digits

/-!
# Comparisons of values of different kinds

Being less and being equal exclude each other for most pairs of values, since both comparisons look
at the same form of the values: lists at their lengths, texts at their characters, numbers at their
integers or floating-point numbers. A number and a text behind it are the exception
(`Value.AtOdds`): they are equal if the text reads as the number, but the number is less if its own
text comes first. So a number may be less than a text that it is equal to, and this happens to no
other values (`Value.exactly_one_iff_not_atOdds`).
-/

namespace Phrasebook

/-- A floating-point number that is less than another one is not equal to it. -/
theorem Number.not_beq_of_lt {x y : Float} (h : x < y) : (x == y) = false := by
  have hlt : (x.toModel.unpack.compare y.toModel.unpack == some .lt) = true := of_decide_eq_true h
  change (x.toModel.unpack.compare y.toModel.unpack == some .eq) = false
  rw [eq_of_beq hlt]
  rfl

namespace Value

/-- A number and a text that reads as the number, but comes behind the text of the number. A text
that is not a number reads as zero, and zero is the only integer with such texts. -/
def AtOdds (a b : Value) : Prop :=
  ∃ s, b.text? = some s ∧
    match a with
    | .int n => n = 0 ∧ (Number.readInt64? s).getD 0 = 0 ∧ "0" < s
    | .float x => x == (Number.readFloat? s).getD 0 ∧ Number.floatText x < s
    | .time m => m.secs = (Number.readInt64? s).getD 0 ∧ m.text < s
    | .duration d => d.toInt64 = (Number.readInt64? s).getD 0 ∧ d.text < s
    | _ => False

/-- Whether a value is a number: neither a text nor a list. -/
def isNumber : Value → Bool
  | .text _ | .raw _ | .list _ => false
  | _ => true

variable {a b : Value} {s : String}

theorem length_eq_of_equalItems {as bs : List Value} (h : equal.equalItems as bs) :
    as.length = bs.length := by
  induction as generalizing bs with
  | nil => cases bs <;> simp_all [equal.equalItems]
  | cons a as ih =>
      cases bs with
      | nil => cases h
      | cons b bs =>
          rw [equal.equalItems, Bool.and_eq_true] at h
          simp [ih h.2]

/-- Only lists are equal to lists, and then they have the same length. -/
theorem not_less_of_equal_list {items : List Value} (h : (list items).equal b) :
    ¬ (list items).less b := by
  cases b with
  | list others =>
      have hitems : equal.equalItems items others := by simpa [equal] using h
      simp [less, length_eq_of_equalItems hitems]
  | _ => simp [equal] at h

theorem not_equal_list {items : List Value} (h : a.isNumber) : ¬ a.equal (.list items) := by
  cases a <;> simp_all [isNumber, equal]

/-- A text is compared with the texts of other values. -/
theorem not_less_of_equal_text (ha : a.text? = some s) (h : a.equal b) : ¬ a.less b := by
  have hirrefl := String.lt_irrefl s
  cases a <;> cases ha <;> cases b <;> simp_all [equal, less]

section Numbers

variable (ha : a.isNumber) (hb : b.isNumber)

include ha hb

theorem less_of_isFloat (h : a.isFloat ∨ b.isFloat) :
    a.less b ↔ a.toFloat < b.toFloat := by
  cases a <;> cases b <;> simp [isNumber, isFloat] at ha hb h <;> exact decide_eq_true_iff

theorem equal_of_isFloat (h : a.isFloat ∨ b.isFloat) :
    a.equal b = (a.toFloat == b.toFloat) := by
  cases a <;> cases b <;> simp_all [isNumber, isFloat, equal, toFloat]

theorem less_of_not_isFloat (h : ¬ (a.isFloat ∨ b.isFloat)) :
    a.less b ↔ a.toInt < b.toInt := by
  cases a <;> cases b <;> simp_all [isNumber, isFloat, less]

theorem toInt_eq_of_equal (h : ¬ (a.isFloat ∨ b.isFloat)) (hequal : a.equal b) :
    a.toInt = b.toInt := by
  cases a <;> cases b <;>
    simp_all [isNumber, isFloat, equal, toInt, Moment.sameInstant, Duration.toInt64]

/-- Two numbers are compared as floating-point numbers if one of them is one, and otherwise as
integers. -/
theorem not_less_of_equal_numbers (h : a.equal b) : ¬ a.less b := by
  by_cases hfloat : a.isFloat ∨ b.isFloat
  · rw [less_of_isFloat ha hb hfloat]
    intro hlt
    rw [equal_of_isFloat ha hb hfloat, Number.not_beq_of_lt hlt] at h
    cases h
  · rw [less_of_not_isFloat ha hb hfloat, toInt_eq_of_equal ha hb hfloat h]
    exact fun hlt => Int64.lt_asymm hlt hlt

end Numbers

theorem toText_int (n : Int64) : (int n).toText = Number.intText n.toInt := String.empty_append

theorem toText_float (x : Float) : (float x).toText = Number.floatText x := String.empty_append

theorem toText_time (m : Moment) : (time m).toText = m.text := String.empty_append

theorem toText_duration (d : Duration) : (duration d).toText = d.text := String.empty_append

/-- An integer other than zero is written behind all texts that it is equal to. -/
theorem eq_zero_of_intText_lt {n : Int64} (hread : n = (Number.readInt64? s).getD 0)
    (hlt : Number.intText n.toInt < s) : n = 0 := by
  by_contra hne
  obtain hnone | ⟨m, hsome⟩ := Option.eq_none_or_eq_some (Number.readInt64? s)
  · exact hne (by rw [hread, hnone, Option.getD_none])
  · obtain rfl : n = m := by rw [hread, hsome, Option.getD_some]
    exact Number.not_intText_lt hsome hne hlt

section Text

variable (hb : b.text? = some s)

include hb

theorem not_less_text_bool {c : Bool} : ¬ (bool c).less b := by
  cases b <;> cases hb <;> exact nofun

/-- Except for truth values, a number is less than a text if its own text is. -/
theorem less_text (ha : a.isNumber) (hbool : a.kind ≠ .bool) : a.less b ↔ a.toText < s := by
  cases b <;> cases hb <;> cases a <;> simp_all [isNumber, less, kind]

theorem equal_text_float {x : Float} : (float x).equal b ↔ x == (Number.readFloat? s).getD 0 := by
  cases b <;> cases hb <;> rfl

theorem equal_text (ha : a.isNumber) (hfloat : ¬ a.isFloat) :
    a.equal b ↔ a.toInt = (Number.readInt64? s).getD 0 := by
  cases b <;> cases hb <;> cases a <;> simp_all [isNumber, isFloat, equal, toInt]

theorem atOdds_text_iff (ha : a.isNumber) : a.AtOdds b ↔ a.equal b ∧ a.less b := by
  simp only [AtOdds, hb, Option.some.injEq, exists_eq_left']
  cases a with
  | bool c => exact iff_of_false not_false fun h => not_less_text_bool hb h.2
  | int n =>
      rw [less_text hb ha nofun, equal_text hb ha nofun, toText_int]
      constructor
      · rintro ⟨rfl, hread, hlt⟩
        exact ⟨hread.symm, hlt⟩
      · rintro ⟨hread, hlt⟩
        obtain rfl := eq_zero_of_intText_lt hread hlt
        exact ⟨rfl, hread.symm, hlt⟩
  | float x => rw [less_text hb ha nofun, equal_text_float hb, toText_float]
  | time m =>
      rw [less_text hb ha nofun, equal_text hb ha nofun, toText_time]
      rfl
  | duration d =>
      rw [less_text hb ha nofun, equal_text hb ha nofun, toText_duration]
      rfl
  | text | raw | list => cases ha

end Text

theorem isNumber_of_atOdds (h : a.AtOdds b) : a.isNumber := by
  obtain ⟨s, -, h⟩ := h
  cases a <;> first | rfl | cases h

/-- A value is equal to another one and also less exactly if they are a number and a text that are
at odds. -/
theorem atOdds_iff : a.AtOdds b ↔ a.equal b ∧ a.less b := by
  by_cases ha : a.isNumber
  · obtain hnone | ⟨s, hb⟩ := Option.eq_none_or_eq_some b.text?
    · refine iff_of_false (fun ⟨s, hs, _⟩ => by simp [hnone] at hs) fun ⟨hequal, hless⟩ => ?_
      cases b with
      | list => exact not_equal_list ha hequal
      | text | raw => cases hnone
      | _ => exact not_less_of_equal_numbers ha rfl hequal hless
    · exact atOdds_text_iff hb ha
  · refine iff_of_false (fun h => ha (isNumber_of_atOdds h)) fun ⟨hequal, hless⟩ => ?_
    cases a with
    | list => exact not_less_of_equal_list hequal hless
    | text | raw => exact not_less_of_equal_text rfl hequal hless
    | _ => exact ha rfl

/-- Of any two values exactly one of less, equal and greater holds, unless they are a number and a
text that are at odds; those are equal, and the number is also less. -/
theorem exactly_one_iff_not_atOdds (a b : Value) :
    ([a.less b, a.equal b, a.greater b].count true = 1 ↔ ¬ a.AtOdds b) ∧
      (a.AtOdds b → a.equal b ∧ a.less b) := by
  refine ⟨?_, atOdds_iff.mp⟩
  rw [atOdds_iff, greater]
  cases a.less b <;> cases a.equal b <;> decide

/-- One, and a text with more digits that reads as one. -/
theorem exactly_one_iff_not_atOdds_of_one :
    (float 1).AtOdds (.text "1.0") ∧ (float 1).equal (.text "1.0") ∧
      (float 1).less (.text "1.0") := by
  have hodds : (float 1).AtOdds (.text "1.0") :=
    ⟨"1.0", rfl, by decide +kernel, by decide +kernel⟩
  exact ⟨hodds, (exactly_one_iff_not_atOdds _ _).2 hodds⟩

end Value

end Phrasebook
