import Phrasebook.Number.Text

/-!
# Data documents

The values of JSON documents. The members of an object are sorted by name, and of members with the
same name the last one counts. Integers that fit into 64 bits, signed or not, stay integers.
-/

namespace Phrasebook

/-- A number of a document. -/
inductive Json.Number where
  /-- An integer between the smallest signed and the largest unsigned one of 64 bits. -/
  | integer (n : Int)
  | float (x : Float)

/-- A value of a document. -/
inductive Json where
  | null
  | bool (b : Bool)
  | number (n : Json.Number)
  | string (s : String)
  | array (items : List Json)
  | object (members : List (String × Json))

namespace Json

/-- A property of all values follows from its transfer from items and members to the whole. -/
@[induction_eliminator]
theorem induct {P : Json → Prop} (null : P .null) (bool : ∀ b, P (.bool b))
    (number : ∀ n, P (.number n)) (string : ∀ s, P (.string s))
    (array : ∀ items, (∀ j ∈ items, P j) → P (.array items))
    (object : ∀ members, (∀ m ∈ members, P m.2) → P (.object members)) (j : Json) : P j := by
  refine Json.rec (motive_1 := P) (motive_2 := fun items => ∀ j ∈ items, P j)
    (motive_3 := fun members => ∀ m ∈ members, P m.2) (motive_4 := fun m => P m.2)
    null bool number string array object ?_ ?_ ?_ ?_ ?_ j
  all_goals simp_all

instance : Inhabited Json := ⟨null⟩

/-- The name of the kind of a value in messages. -/
def kindName : Json → String
  | null => "null"
  | bool _ => "boolean"
  | number _ => "number"
  | string _ => "string"
  | array _ => "array"
  | object _ => "object"

end Json

end Phrasebook
