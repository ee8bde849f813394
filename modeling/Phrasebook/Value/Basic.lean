import Phrasebook.Number.Read
import Phrasebook.Number.Text
import Phrasebook.Time.Moment

/-!
# Values

The values that templates compute with. Every value has a text, a truth value, an integer form, a
floating-point form and a sequence form, so that values of different kinds can meet in one
operation. Raw text is text that is already markup of the output and is not escaped again.
-/

namespace Phrasebook

/-- The kinds of values. -/
inductive Value.Kind where
  | bool
  | int
  | float
  | text
  | raw
  | time
  | duration
  | list
  deriving DecidableEq, Repr

/-- The name of a kind in messages. -/
def Value.Kind.name : Kind → String
  | bool => "bool"
  | int => "int"
  | float => "float"
  | text => "string"
  | raw => "raw string"
  | time => "time"
  | duration => "duration"
  | list => "slice"

/-- A value. -/
inductive Value where
  | bool (b : Bool)
  | int (n : Int64)
  | float (x : Float)
  | text (s : String)
  | raw (s : String)
  | time (m : Moment)
  | duration (d : Duration)
  | list (items : List Value)

namespace Value

/-- A property of all values follows from its transfer from the items of a list to the list. -/
@[induction_eliminator]
theorem induct {P : Value → Prop} (bool : ∀ b, P (.bool b)) (int : ∀ n, P (.int n))
    (float : ∀ x, P (.float x)) (text : ∀ s, P (.text s)) (raw : ∀ s, P (.raw s))
    (time : ∀ m, P (.time m)) (duration : ∀ d, P (.duration d))
    (list : ∀ items, (∀ v ∈ items, P v) → P (.list items)) (v : Value) : P v := by
  refine Value.rec (motive_1 := P) (motive_2 := fun items => ∀ v ∈ items, P v)
    bool int float text raw time duration list ?_ ?_ v
  all_goals simp_all

/-- The value of anything that is missing: the empty text. -/
def empty : Value := .text ""

instance : Inhabited Value := ⟨empty⟩

/-- The kind of a value. -/
def kind : Value → Kind
  | .bool _ => .bool
  | .int _ => .int
  | .float _ => .float
  | .text _ => .text
  | .raw _ => .raw
  | .time _ => .time
  | .duration _ => .duration
  | .list _ => .list

/-- The text of a value that is itself a text. -/
def text? : Value → Option String
  | .text s | .raw s => some s
  | _ => none

/-- Whether a value is a text, raw or not. -/
def isText (v : Value) : Bool := v.text?.isSome

/-- The text of a value behind a text that is already there. -/
def appendTo (front : String) : Value → String
  | .bool b => front ++ if b then "true" else "false"
  | .int n => front ++ Number.intText n.toInt
  | .float x => front ++ Number.floatText x
  | .text s | .raw s => front ++ s
  | .time m => front ++ m.text
  | .duration d => front ++ d.text
  | .list items => appendItems front items
where
  /-- The texts of items behind a text that is already there. -/
  appendItems (front : String) : List Value → String
    | [] => front
    | v :: items => appendItems (v.appendTo front) items

/-- The text of a value; a list is written item by item. -/
def toText (v : Value) : String :=
  match v.text? with
  | some s => s
  | none => v.appendTo ""

/-- The truth of a value: zero and empty values are false. -/
def toBool : Value → Bool
  | .bool b => b
  | .int n => n != 0
  | .float x => x != 0
  | .text s | .raw s => s != ""
  | .time _ => true
  | .duration d => d.nanos != 0
  | .list items => !items.isEmpty

/-- The integer form of a value. Text that is not an integer is zero, and a list is its length. -/
def toInt : Value → Int64
  | .bool b => if b then 1 else 0
  | .int n => n
  | .float x => Number.truncateToInt64 x
  | .text s | .raw s => (Number.readInt64? s).getD 0
  | .time m => m.secs
  | .duration d => d.toInt64
  | .list items => Number.lengthInt64 items.length

/-- The floating-point form of a value. Text that is not a number is zero, and other values go
through their integer form. -/
def toFloat : Value → Float
  | .float x => x
  | .text s | .raw s => (Number.readFloat? s).getD 0
  | v => Number.ofInt64 v.toInt

/-- The one-character texts of a text. -/
def ofChars (s : String) : List Value := s.toList.map fun c => .text (String.singleton c)

/-- The sequence form of a value: the items of a list, the characters of a text, and the value
alone otherwise. -/
def items : Value → List Value
  | .list items => items
  | .text s | .raw s => ofChars s
  | v => [v]

/-- The value of a length or count. -/
def ofNat (n : Nat) : Value := .int (Number.lengthInt64 n)

theorem appendItems_eq_foldl (front : String) (items : List Value) :
    appendTo.appendItems front items = items.foldl appendTo front := by
  induction items generalizing front with
  | nil => rfl
  | cons v items ih => exact ih _

theorem appendTo_eq (front : String) (v : Value) : v.appendTo front = front ++ v.appendTo "" := by
  induction v generalizing front with
  | list items ih =>
    suffices h : ∀ front, items.foldl appendTo front = front ++ items.foldl appendTo "" by
      simpa [appendTo, appendItems_eq_foldl] using h front
    induction items with
    | nil => simp
    | cons v items ihItems =>
      have hv := ih v (by simp)
      have hItems := ihItems fun w hw => ih w (by simp [hw])
      intro front
      rw [List.foldl_cons, List.foldl_cons, hItems, hItems (v.appendTo ""), hv front]
      simp [String.append_assoc]
  | _ => simp [appendTo]

theorem toText_eq (v : Value) : v.toText = v.appendTo "" := by
  cases v <;> simp [toText, text?, appendTo]

@[simp] theorem toText_text (s : String) : (Value.text s).toText = s := rfl

@[simp] theorem toText_raw (s : String) : (Value.raw s).toText = s := rfl

@[simp] theorem toText_list_nil : (Value.list []).toText = "" := rfl

@[simp] theorem toText_list_cons (v : Value) (items : List Value) :
    (Value.list (v :: items)).toText = v.toText ++ (Value.list items).toText := by
  simp only [toText_eq, appendTo, appendTo.appendItems]
  rw [appendItems_eq_foldl, appendItems_eq_foldl]
  have h := appendTo_eq (v.appendTo "") (.list items)
  simpa [appendTo, appendItems_eq_foldl] using h

end Value

end Phrasebook
