import Phrasebook.Template.Token
import Phrasebook.Text.Quoted

/-!
# Syntax errors

Reading a template never fails; what is wrong with it is reported as a list of errors, each at the
token where it shows.

The place of a token is a byte offset and is shown as a line and a column, both counted from one.
Columns count characters.
-/

namespace Phrasebook

namespace Text

/-- The characters before a byte offset, or nothing if the offset lies inside a character or past
the end. -/
def charsBefore : List Char → Nat → Option (List Char)
  | _, 0 => some []
  | [], _ + 1 => none
  | c :: cs, offset + 1 =>
    if c.utf8Size ≤ offset + 1 then
      (charsBefore cs (offset + 1 - c.utf8Size)).map (c :: ·)
    else none

/-- The line and column just behind the given characters. -/
def placeAfter (before : List Char) : Nat × Nat :=
  (before.count '\n' + 1, (before.reverse.takeWhile (· != '\n')).length + 1)

/-- The line and column of a byte offset. An offset past the end or inside a character stands for
the end of the text. -/
def lineColumn (source : String) (offset : Nat) : Nat × Nat :=
  placeAfter ((charsBefore source.toList offset).getD source.toList)

end Text

/-- The deepest nesting of a template, counted in levels of its tree. -/
def maxNesting : Nat := 128

/-- What is wrong at a token. -/
inductive SyntaxError.Cause where
  | unexpected
  | expected (kind : Token.Kind)
  | nestedTooDeeply
  deriving DecidableEq, Repr

/-- A problem and the token at which it shows. -/
structure SyntaxError where
  token : Token
  cause : SyntaxError.Cause
  deriving DecidableEq, Repr

namespace SyntaxError

/-- The wording of an error. -/
def message (e : SyntaxError) : String :=
  match e.cause with
  | .unexpected => "unexpected " ++ Text.quote e.token.display
  | .expected kind =>
    "expected " ++ Text.quote kind.spelling ++ ", found " ++ Text.quote e.token.display
  | .nestedTooDeeply => "expression nested too deeply (limit " ++ toString maxNesting ++ ")"

/-- The line and column of an error in the template it belongs to. -/
def position (e : SyntaxError) (source : String) : Nat × Nat :=
  Text.lineColumn source e.token.offset

end SyntaxError

end Phrasebook
