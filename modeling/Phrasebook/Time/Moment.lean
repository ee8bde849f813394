import Phrasebook.Time.Duration
import Phrasebook.Time.Zone

/-!
# Moments

A moment is an instant, counted in seconds since 1970 with a fraction in nanoseconds, together with
the zone in which it is shown.
-/

namespace Phrasebook

/-- An instant in a zone. -/
structure Moment where
  secs : Int64
  nanos : Nat
  zone : Zone

namespace Moment

/-- The first second of the years that dates are kept for. -/
def earliest : Int := -8334601228800

/-- The last second of the years that dates are kept for. -/
def latest : Int := 8210266876799

/-- The moment of an instant, if dates are kept for it. -/
def ofUnix? (secs : Int) (nanos : Nat) (zone : Zone) : Option Moment :=
  if earliest ≤ secs ∧ secs ≤ latest ∧ nanos < Duration.second then
    some ⟨Int64.ofInt secs, nanos, zone⟩
  else none

/-- Whether two moments are the same instant, in whatever zones. -/
def sameInstant (a b : Moment) : Bool := a.secs == b.secs && a.nanos == b.nanos

/-- The time that holds in the zone. -/
def zoneTime (m : Moment) : ZoneTime := m.zone.timeAt m.secs.toInt

/-- The seconds since 1970 on the clocks of the zone. -/
def localSecs (m : Moment) : Int := m.secs.toInt + m.zoneTime.offset

/-- The day in the zone. -/
def day (m : Moment) : Int := m.localSecs.fdiv 86400

/-- The date in the zone. -/
def date (m : Moment) : Date := Date.ofDay m.day

/-- The second of the day in the zone. -/
def secondOfDay (m : Moment) : Nat := (m.localSecs.fmod 86400).toNat

/-- The hour of the day. -/
def hour (m : Moment) : Nat := m.secondOfDay / 3600

/-- The minute of the hour. -/
def minute (m : Moment) : Nat := m.secondOfDay / 60 % 60

/-- The second of the minute. -/
def second (m : Moment) : Nat := m.secondOfDay % 60

/-- Two digits. -/
def twoDigits (n : Nat) : List Char := Duration.padded 2 n

/-- A year, with its sign outside of the years of four digits. -/
def yearText (year : Int) : List Char :=
  if 0 ≤ year ∧ year ≤ 9999 then Duration.padded 4 year.toNat
  else (if year < 0 then '-' else '+') :: Duration.padded 4 year.natAbs

/-- The fraction of a second with the fewest groups of three digits. -/
def fractionText (nanos : Nat) : List Char :=
  if nanos = 0 then []
  else if nanos % 1000000 = 0 then '.' :: Duration.padded 3 (nanos / 1000000)
  else if nanos % 1000 = 0 then '.' :: Duration.padded 6 (nanos / 1000)
  else '.' :: Duration.padded 9 nanos

/-- An offset as hours and minutes. -/
def offsetText (offset : Int) : List Char :=
  let minutes := offset.natAbs / 60
  (if offset < 0 then '-' else '+') :: (twoDigits (minutes / 60) ++ ':' :: twoDigits (minutes % 60))

/-- The date, the time of day and the offset of a moment. -/
def text (m : Moment) : String :=
  let d := m.date
  String.ofList <|
    yearText d.year ++ '-' :: twoDigits d.month ++ '-' :: twoDigits d.day ++
      'T' :: twoDigits m.hour ++ ':' :: twoDigits m.minute ++ ':' :: twoDigits m.second ++
      fractionText m.nanos ++ offsetText m.zoneTime.offset

end Moment

end Phrasebook
