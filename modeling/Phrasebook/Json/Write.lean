import Phrasebook.Json.Basic
import Phrasebook.Text.Quoted

/-!
# Writing data documents

A document is written compactly, without any blanks, or laid out with every item and member on a
line of its own, indented by two blanks for each level.
-/

namespace Phrasebook.Json

/-- How a character is written inside a string. -/
def stringChar (c : Char) : List Char :=
  match c with
  | '"' => ['\\', '"']
  | '\\' => ['\\', '\\']
  | '\x08' => ['\\', 'b']
  | '\x0c' => ['\\', 'f']
  | '\n' => ['\\', 'n']
  | '\r' => ['\\', 'r']
  | '\t' => ['\\', 't']
  | c =>
    if c.toNat < 0x20 then
      let digits := Text.hexDigits c.toNat
      ['\\', 'u'] ++ List.replicate (4 - digits.length) '0' ++ digits
    else [c]

/-- A string between quotes. -/
def stringText (s : String) : String :=
  "\"" ++ String.ofList (s.toList.flatMap stringChar) ++ "\""

/-- The text of a number. -/
def Number.text : Number → String
  | .integer n => Phrasebook.Number.intText n
  | .float x =>
    match Phrasebook.Number.Binary.ofFloat? x with
    | some b => String.ofList (Phrasebook.Number.Layout.document.binary b)
    | none => "null"

/-- How the parts of a container are set apart: what stands in front of every part at a depth, and
between a name and its value. -/
structure Style where
  lineBreak : Nat → String
  colon : String

/-- Everything on one line without blanks. -/
def Style.compact : Style := ⟨fun _ => "", ":"⟩

/-- Every part on a line of its own. -/
def Style.pretty : Style :=
  ⟨fun depth => "\n" ++ String.ofList (List.replicate (2 * depth) ' '), ": "⟩

/-- A container at a depth, given its brackets and its parts. -/
def container (style : Style) (depth : Nat) (opening closing : String) (parts : List String) :
    String :=
  if parts = [] then opening ++ closing
  else
    opening ++ ",".intercalate (parts.map (style.lineBreak (depth + 1) ++ ·)) ++
      style.lineBreak depth ++ closing

/-- The text of a value at a depth. -/
def textAt (style : Style) (depth : Nat) : Json → String
  | .null => "null"
  | .bool b => if b then "true" else "false"
  | .number n => n.text
  | .string s => stringText s
  | .array items => container style depth "[" "]" (itemTexts style depth items)
  | .object members => container style depth "\x7b" "\x7d" (memberTexts style depth members)
where
  /-- The texts of the items of an array. -/
  itemTexts (style : Style) (depth : Nat) : List Json → List String
    | [] => []
    | item :: items => textAt style (depth + 1) item :: itemTexts style depth items
  /-- The texts of the members of an object. -/
  memberTexts (style : Style) (depth : Nat) : List (String × Json) → List String
    | [] => []
    | (name, value) :: members =>
      (stringText name ++ style.colon ++ textAt style (depth + 1) value) ::
        memberTexts style depth members

/-- The compact text of a value. -/
def compact (j : Json) : String := j.textAt .compact 0

/-- The text of a value laid out on lines. -/
def pretty (j : Json) : String := j.textAt .pretty 0

end Phrasebook.Json
