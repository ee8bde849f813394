import Phrasebook.Value.Basic

/-!
# Comparison of values

Values of any two kinds can be compared. The left operand decides which form of the right one it is
compared with: texts are compared with the text of a value, numbers with its numeric form, and
lists with lists and numbers only.
-/

namespace Phrasebook.Value

/-- Whether two values are equal. -/
def equal : Value → Value → Bool
  | .list as, .list bs => equalItems as bs
  | .list _, _ => false
  | _, .list _ => false
  | .text s, b => s == b.toText
  | .raw s, b => s == b.toText
  | .float x, b => x == b.toFloat
  | .time m, .time n => m.sameInstant n
  | .duration d, .duration e => d.nanos == e.nanos
  | a, .float y => a.toFloat == y
  | a, b => a.toInt == b.toInt
where
  /-- Whether two lists have equal items. -/
  equalItems : List Value → List Value → Bool
    | [], [] => true
    | a :: as, b :: bs => a.equal b && equalItems as bs
    | _, _ => false

/-- Whether the left value is smaller than the right one. -/
def less (a b : Value) : Bool :=
  match a, b with
  | .list as, .list bs => as.length < bs.length
  | .list as, .float y => Float.ofNat as.length < y
  | .list _, .int _ | .list _, .time _ | .list _, .duration _ => a.toInt < b.toInt
  | .list _, _ => false
  | _, .list _ => false
  | .bool _, .text _ | .bool _, .raw _ => false
  | .text _, .bool _ | .raw _, .bool _ => false
  | .text _, _ | .raw _, _ => a.toText < b.toText
  | _, .text _ | _, .raw _ => a.toText < b.toText
  | .float x, _ => x < b.toFloat
  | _, .float y => a.toFloat < y
  | _, _ => a.toInt < b.toInt

/-- Whether the left value is neither smaller nor equal. -/
def greater (a b : Value) : Bool := !a.less b && !a.equal b

/-- Whether the left value is not smaller, or equal. -/
def greaterEqual (a b : Value) : Bool := !a.less b || a.equal b

/-- Whether the left value is smaller or equal. -/
def lessEqual (a b : Value) : Bool := a.less b || a.equal b

end Phrasebook.Value
