import Phrasebook.Json.Write
import Phrasebook.Value.Basic

/-!
# Values of data documents

How the values of a document are seen by templates.
-/

namespace Phrasebook.Value

/-- The value of a number of a document: an integer if it is one of 64 bits with a sign. -/
def ofJsonNumber : Json.Number → Value
  | .integer n =>
    if Number.minInt64 ≤ n ∧ n ≤ Number.maxInt64 then .int (Int64.ofInt n)
    else .float (Float.ofInt n)
  | .float x => .float x

/-- The value of a document. Nothing is the empty text, and an object is its compact text. -/
def ofJson : Json → Value
  | .null => .empty
  | .bool b => .bool b
  | .number n => ofJsonNumber n
  | .string s => .text s
  | .array items => .list (ofItems items)
  | .object members => .text (Json.object members).compact
where
  /-- The values of the items of an array. -/
  ofItems : List Json → List Value
    | [] => []
    | item :: items => ofJson item :: ofItems items

/-- The value of a length of time in nanoseconds that is not negative; one that is too long is the
longest duration. -/
def ofNanos (nanos : Nat) : Value := .duration ((Duration.ofNanos? nanos).getD .longest)

end Phrasebook.Value
