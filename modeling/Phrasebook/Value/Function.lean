import Phrasebook.Text.Basic
import Phrasebook.Value.Arithmetic

/-!
# Functions of values

The functions that templates may call whose results are the same in every output format.
-/

namespace Phrasebook.Value

/-- The number of items of a sequence. -/
def length (v : Value) : Value := ofNat v.items.length

/-- The texts of the items of a sequence with a separator between them. -/
def join (v separator : Value) : Value :=
  .text (separator.toText.intercalate (v.items.map toText))

/-- The parts of a text between the occurrences of a separator, or its characters if the separator
is empty. -/
def split (v separator : Value) : Value :=
  .list ((Text.split v.toText separator.toText).map .text)

/-- A given number of characters, taken from a text again and again; blanks if it is empty. -/
def padding (fill : List Char) (count : Nat) : List Char :=
  let fill := if fill = [] then [' '] else fill
  (List.replicate (count / fill.length + 1) fill).flatten.take count

/-- The padding that brings a text to a length, which is ignored if it is negative or too large. -/
def paddingFor (text : String) (length fill : Value) : String :=
  let wanted := length.toInt.toInt.toNat
  let wanted := if wanted ≤ maxTextSize then wanted else 0
  String.ofList (padding fill.toText.toList (wanted - text.length))

/-- A text padded on the left. -/
def padLeft (v length fill : Value) : Value :=
  .text (paddingFor v.toText length fill ++ v.toText)

/-- A text padded on the right. -/
def padRight (v length fill : Value) : Value :=
  .text (v.toText ++ paddingFor v.toText length fill)

/-- A text without one occurrence of another at its beginning. -/
def trimLeft (v front : Value) : Value :=
  .text (String.ofList (Text.dropFront v.toText.toList front.toText.toList))

/-- A text without one occurrence of another at its end. -/
def trimRight (v back : Value) : Value :=
  .text (String.ofList (Text.dropBack v.toText.toList back.toText.toList))

/-- The integer part of a number. -/
def integer (v : Value) : Value := .int (Number.truncateToInt64 v.toFloat)

/-- The fractional part of a number, rounded to a multiple of a unit if that is positive. -/
def fraction (v unit : Value) : Value :=
  let part := Number.fractionalPart v.toFloat
  let unit := unit.toFloat
  .float (if unit > 0 then Number.round (part / unit) * unit else part)

/-- The magnitude of a number or duration. -/
def abs : Value → Value
  | .float x => .float x.abs
  | .duration d => .duration d.abs
  | v => .int (if v.toInt < 0 then -v.toInt else v.toInt)

end Phrasebook.Value
