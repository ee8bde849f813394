import Phrasebook.Dictionary
import Phrasebook.Value.Basic

/-!
# Messages

A message names a translation and carries the variables for it, which are named values. Without a
translation it is shown by its key and variables.

A template may ask for another translation of a value. The message for it carries the value, an
option, and the calendar fields of a moment or the units of a length of time.
-/

namespace Phrasebook

/-- Named values. -/
abbrev Vars := Dictionary Value

namespace Vars

/-- Adds variables to others, instead of those of the same names. -/
def merge (vars others : Vars) : Vars := vars.insertAll others.entries

/-- The text of variables: the names in order with their texts. -/
def text (vars : Vars) : String :=
  "\x7b" ++ ", ".intercalate (vars.entries.map fun e => e.1 ++ ": " ++ e.2.toText) ++ "\x7d"

end Vars

/-- A key and the variables of its template. -/
structure Message where
  key : String
  vars : Vars

namespace Message

/-- The message of a key without variables. -/
def ofKey (key : String) : Message := ⟨key, ∅⟩

/-- The message of an identifier. What stands before the first colon, if there is one, is passed to
the template as the variable `context`. -/
def ofId (id : String) : Message :=
  let cs := id.toList
  match cs.dropWhile (· != ':') with
  | [] => ofKey id
  | _ :: key =>
    ⟨String.ofList key,
      Dictionary.empty.insert "context" (.text (String.ofList (cs.takeWhile (· != ':'))))⟩

/-- The message with more variables. -/
def withVars (m : Message) (vars : Vars) : Message := { m with vars := m.vars.merge vars }

/-- The key, followed by the variables if there are any. -/
def debugText (m : Message) : String :=
  if m.vars.isEmpty then m.key else m.key ++ ": " ++ m.vars.text

/-- Whether two messages have the same key, whatever their variables. -/
def sameKey (a b : Message) : Bool := a.key == b.key

end Message

/-- The calendar fields of a moment on the clocks of its zone. -/
def Moment.fields (m : Moment) : List (String × Value) :=
  [("year", .int (Int64.ofInt m.date.year)),
    ("month", .ofNat m.date.month),
    ("day", .ofNat m.date.day),
    ("weekday", .text (Date.weekdayName m.day)),
    ("hour", .ofNat m.hour),
    ("minute", .ofNat m.minute),
    ("second", .ofNat m.second),
    ("zone_name", .text m.zone.name),
    ("zone_name_short", .text m.zoneTime.abbreviation),
    ("zone_offset", .text (String.ofList (Moment.offsetText m.zoneTime.offset)))]

/-- The units of a number of nanoseconds. The larger units are computed from the nearest
floating-point number, the smaller ones from the integer. -/
def Duration.fields (nanos : Int64) : List (String × Value) :=
  let n := Number.ofInt64 nanos
  let hours := n / 3600000000000
  let whole (x : Float) : Value := .int (Number.truncateToInt64 x)
  [("years", whole (hours / 24 / 365)),
    ("days", whole (Number.remainder (hours / 24) 365)),
    ("hours", whole (Number.remainder hours 24)),
    ("minutes", whole (Number.remainder (n / 60000000000) 60)),
    ("seconds", whole (Number.remainder (n / 1000000000) 60)),
    ("millis", .int (nanos / 1000000 % 1000)),
    ("micros", .int (nanos / 1000 % 1000)),
    ("nanos", .int (nanos % 1000))]

/-- The fields of a value that stands for a point or a length of time; other values have none. -/
def Value.timeFields : Value → List (String × Value)
  | .time m => m.fields
  | .int n => Duration.fields n
  | .duration d => Duration.fields d.toInt64
  | _ => []

/-- The message that asks for the translation of a key for a value and an option. -/
def Message.nested (key value option : Value) : Message :=
  ⟨key.toText, .ofList (("value", value) :: ("opt", option) :: value.timeFields)⟩

end Phrasebook
