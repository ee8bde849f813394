/-!
# The calendar

Days are counted from the first of January 1970, and dates are those of the Gregorian calendar
continued in both directions. Years are taken to start in March, so that the leap day ends them.
-/

namespace Phrasebook

/-- A date. -/
structure Date where
  year : Int
  month : Nat
  day : Nat
  deriving DecidableEq, Repr

namespace Date

/-- The days from the first of March of the year 0 to the first of January 1970. -/
def epoch : Int := 719468

/-- The days of four hundred years. -/
def eraDays : Int := 146097

/-- The date of a day. -/
def ofDay (day : Int) : Date :=
  let shifted := day + epoch
  let era := shifted.fdiv eraDays
  let dayOfEra := (shifted - era * eraDays).toNat
  let yearOfEra := (dayOfEra - dayOfEra / 1460 + dayOfEra / 36524 - dayOfEra / 146096) / 365
  let dayOfYear := dayOfEra - (365 * yearOfEra + yearOfEra / 4 - yearOfEra / 100)
  let shiftedMonth := (5 * dayOfYear + 2) / 153
  let month := if shiftedMonth < 10 then shiftedMonth + 3 else shiftedMonth - 9
  { year := (yearOfEra : Int) + era * 400 + if month ≤ 2 then 1 else 0
    month
    day := dayOfYear - (153 * shiftedMonth + 2) / 5 + 1 }

/-- The day of a date. -/
def toDay (d : Date) : Int :=
  let year := if d.month ≤ 2 then d.year - 1 else d.year
  let era := year.fdiv 400
  let yearOfEra := (year - era * 400).toNat
  let shiftedMonth := if 2 < d.month then d.month - 3 else d.month + 9
  let dayOfYear := (153 * shiftedMonth + 2) / 5 + d.day - 1
  let dayOfEra := yearOfEra * 365 + yearOfEra / 4 - yearOfEra / 100 + dayOfYear
  era * eraDays + dayOfEra - epoch

/-- The place of a day in the week, Sunday being zero. -/
def weekday (day : Int) : Nat := ((day + 4).fmod 7).toNat

/-- The name of a day of the week, in lower case. -/
def weekdayName (day : Int) : String :=
  match weekday day with
  | 0 => "sunday"
  | 1 => "monday"
  | 2 => "tuesday"
  | 3 => "wednesday"
  | 4 => "thursday"
  | 5 => "friday"
  | _ => "saturday"

/-- The last Sunday of a month of thirty-one days. -/
def lastSunday (year : Int) (month : Nat) : Int :=
  let last := toDay ⟨year, month, 31⟩
  last - weekday last

/-- The first Sunday of a month. -/
def firstSunday (year : Int) (month : Nat) : Int :=
  let first := toDay ⟨year, month, 1⟩
  first + ((7 - weekday first) % 7 : Nat)

end Date

end Phrasebook
