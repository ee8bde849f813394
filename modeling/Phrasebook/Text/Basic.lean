/-!
# Characters and texts

A property of characters is given by the code points at which it starts or ceases to hold. It holds
from its first change up to its second, from its third up to its fourth, and so on.

A text loses the blanks at its ends, or another text at one of them, and is split at the occurrences
of a separator, which are found from left to right without overlap.
-/

namespace Phrasebook.Text

/-- A property of characters: the code points at which it changes, smallest first. -/
structure CharProperty where
  changes : List Nat

/-- Whether an odd number of changes, smallest first, lie at or before a code point. -/
def oddChanges : List Nat → Nat → Bool
  | [], _ => false
  | first :: rest, n => first ≤ n && !oddChanges rest n

/-- Whether a character has a property. -/
def CharProperty.holds (property : CharProperty) (c : Char) : Bool :=
  oddChanges property.changes c.toNat

/-- Whether a character lies between two code points, both included. -/
def isBetween (first last : Nat) (c : Char) : Bool := first ≤ c.toNat && c.toNat ≤ last

/-- Whether a character is white space of any script. -/
def isBlank (c : Char) : Bool :=
  let n := c.toNat
  (0x9 ≤ n && n ≤ 0xd) || n == 0x20 || n == 0x85 || n == 0xa0 || n == 0x1680 ||
    (0x2000 ≤ n && n ≤ 0x200a) || n == 0x2028 || n == 0x2029 || n == 0x202f || n == 0x205f ||
    n == 0x3000

/-- Characters without the blanks at both ends. -/
def trimChars (cs : List Char) : List Char :=
  ((cs.dropWhile isBlank).reverse.dropWhile isBlank).reverse

/-- A text without the blanks at both ends. -/
def trim (s : String) : String := String.ofList (trimChars s.toList)

/-- Splits the rest of a text at a separator. The first argument counts the characters of a
separator that are still to be passed over; the part being read and the parts before it are kept in
reverse. -/
def splitFrom (separator : List Char) :
    Nat → List Char → List (List Char) → List Char → List (List Char)
  | _, part, done, [] => (part.reverse :: done).reverse
  | skip + 1, part, done, _ :: cs => splitFrom separator skip part done cs
  | 0, part, done, c :: cs =>
    if separator.isPrefixOf (c :: cs) then
      splitFrom separator (separator.length - 1) [] (part.reverse :: done) cs
    else splitFrom separator 0 (c :: part) done cs

/-- The parts of a text between the occurrences of a separator. An empty separator splits a text
into its characters. -/
def splitChars (separator cs : List Char) : List (List Char) :=
  if separator = [] then cs.map fun c => [c] else splitFrom separator 0 [] [] cs

/-- The parts of a text between the occurrences of a separator. -/
def split (s separator : String) : List String :=
  (splitChars separator.toList s.toList).map String.ofList

/-- A text without one occurrence of another at its beginning. -/
def dropFront (cs front : List Char) : List Char :=
  if front.isPrefixOf cs then cs.drop front.length else cs

/-- A text without one occurrence of another at its end. -/
def dropBack (cs back : List Char) : List Char :=
  (dropFront cs.reverse back.reverse).reverse

end Phrasebook.Text
