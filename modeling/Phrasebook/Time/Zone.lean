import Phrasebook.Time.Calendar

/-!
# Time zones

A zone is given by the time that holds in it at every instant. Those that are known by name have
the times that their rules give since 2007, when these last changed; the rules before are left out.
-/

namespace Phrasebook

/-- An offset from universal time in seconds, with the abbreviation in use while it holds. -/
structure ZoneTime where
  offset : Int
  abbreviation : String
  deriving DecidableEq, Repr

/-- When summer time holds: from one instant of a year to another, in seconds of universal time
since 1970. -/
structure SummerTime where
  time : ZoneTime
  starts : Int → Int
  ends : Int → Int

/-- A time zone: its name, and the time that holds in it at an instant. -/
structure Zone where
  name : String
  timeAt : Int → ZoneTime

namespace Zone

/-- The seconds of a time of day. -/
def clock (hours minutes : Int) : Int := hours * 3600 + minutes * 60

/-- The instant of an hour of a day. -/
def instant (day hours : Int) : Int := day * 86400 + clock hours 0

/-- A zone in which the same time holds all year round. -/
def steady (name : String) (time : ZoneTime) : Zone where
  name := name
  timeAt _ := time

/-- A zone with a standard time and a summer time. -/
def seasonal (name : String) (standard : ZoneTime) (summer : SummerTime) : Zone where
  name := name
  timeAt secs :=
    let year := (Date.ofDay (secs.fdiv 86400)).year
    if summer.starts year ≤ secs ∧ secs < summer.ends year then summer.time else standard

/-- Summer time in Europe, from the last Sunday of March to the last Sunday of October. -/
def europeanSummer (time : ZoneTime) : SummerTime where
  time := time
  starts year := instant (Date.lastSunday year 3) 1
  ends year := instant (Date.lastSunday year 10) 1

/-- Summer time in North America, from the second Sunday of March to the first Sunday of November.
It starts and ends at two o'clock, in standard time and in summer time. -/
def americanSummer (standard time : ZoneTime) : SummerTime where
  time := time
  starts year := instant (Date.firstSunday year 3 + 7) 2 - standard.offset
  ends year := instant (Date.firstSunday year 11) 2 - time.offset

def utc : Zone := steady "UTC" ⟨0, "UTC"⟩

def tokyo : Zone := steady "Asia/Tokyo" ⟨clock 9 0, "JST"⟩

def kolkata : Zone := steady "Asia/Kolkata" ⟨clock 5 30, "IST"⟩

def kathmandu : Zone := steady "Asia/Kathmandu" ⟨clock 5 45, "+0545"⟩

def berlin : Zone :=
  seasonal "Europe/Berlin" ⟨clock 1 0, "CET"⟩ (europeanSummer ⟨clock 2 0, "CEST"⟩)

def newYork : Zone :=
  let standard : ZoneTime := ⟨clock (-5) 0, "EST"⟩
  seasonal "America/New_York" standard (americanSummer standard ⟨clock (-4) 0, "EDT"⟩)

/-- The zones that are known by name. -/
def all : List Zone := [utc, tokyo, kolkata, kathmandu, berlin, newYork]

/-- The zone of a name. -/
def ofName? (name : String) : Option Zone := all.find? (·.name == name)

end Zone

end Phrasebook
