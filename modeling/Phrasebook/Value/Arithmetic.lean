import Phrasebook.Value.Basic

/-!
# Arithmetic of values

Every operation has a result for every pair of values. Two operands meet as floating-point numbers
if either of them is one, and as 64-bit integers, which wrap around, otherwise; texts are
concatenated and repeated.
-/

namespace Phrasebook

/-- The longest text, in bytes, that repetition and padding build. -/
def maxTextSize : Nat := 1048576

namespace Value

/-- Two operands in their common numeric form. -/
inductive Operands where
  | ints (a b : Int64)
  | floats (a b : Float)

/-- Whether a value is a floating-point number. -/
def isFloat : Value → Bool
  | .float _ => true
  | _ => false

/-- The common numeric form of two values. -/
def operands (a b : Value) : Operands :=
  if a.isFloat || b.isFloat then .floats a.toFloat b.toFloat else .ints a.toInt b.toInt

/-- A text repeated; the empty text if the result would be too long. -/
def repeatText (s : String) (count : Int64) : Value :=
  let count := count.toInt.toNat
  if s = "" ∨ maxTextSize < s.utf8ByteSize * count then empty
  else .text (String.join (List.replicate count s))

/-- The sum of two values; texts are concatenated. -/
def add (a b : Value) : Value :=
  if a.isText || b.isText then .text (a.toText ++ b.toText)
  else
    match operands a b with
    | .ints x y => .int (x + y)
    | .floats x y => .float (x + y)

/-- The difference of two values. -/
def sub (a b : Value) : Value :=
  match operands a b with
  | .ints x y => .int (x - y)
  | .floats x y => .float (x - y)

/-- The product of two values. A text is repeated by the integer form of the other value; of two
texts the left one is the count if it is an integer. -/
def mul (a b : Value) : Value :=
  match a.isText, b.isText with
  | true, false => repeatText a.toText b.toInt
  | false, true => repeatText b.toText a.toInt
  | true, true =>
    match Number.readInt64? a.toText with
    | some count => repeatText b.toText count
    | none => repeatText a.toText b.toInt
  | false, false =>
    match operands a b with
    | .ints x y => .int (x * y)
    | .floats x y => .float (x * y)

/-- The quotient of two values, integers being divided toward zero; division by zero is zero. -/
def div (a b : Value) : Value :=
  match operands a b with
  | .ints x y => if y = 0 then .int 0 else .int (x / y)
  | .floats x y => if y == 0 then .float 0 else .float (x / y)

/-- The remainder of the integer forms, which has the sign of the left one; the remainder of a
division by zero is zero. -/
def mod (a b : Value) : Value :=
  if b.toInt = 0 then .int 0 else .int (a.toInt % b.toInt)

/-- The opposite of a value. -/
def neg : Value → Value
  | .float x => .float (-x)
  | .duration d => .duration d.neg
  | v => .int (-v.toInt)

/-- A value as a number: truth values, texts and lists become integers. -/
def plus : Value → Value
  | .bool b => .int (Value.bool b).toInt
  | .text s => .int (Value.text s).toInt
  | .raw s => .int (Value.raw s).toInt
  | .list items => .int (Value.list items).toInt
  | v => v

/-- The opposite truth value. -/
def not (v : Value) : Value := .bool !v.toBool

end Value

end Phrasebook
