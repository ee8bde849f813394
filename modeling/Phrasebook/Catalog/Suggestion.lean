/-!
# Suggestions

The keys that a misspelled key may have been meant for: those within a small edit distance of it,
the nearest first.

The edit distance of two texts is the least number of characters to insert, delete or replace that
turns one into the other. The distances to all beginnings of the target are computed row by row, one
row for each character of the source.
-/

namespace Phrasebook

namespace Text

/-- The rest of a row. Its entries follow from the entry to the left, from the character of the
source, and from the row above, which starts with the entry above the one to the left. -/
def editRowFrom (c : Char) (left : Nat) : List Char → List Nat → List Nat
  | d :: target, diagonal :: above :: row =>
    let entry := min (if c = d then diagonal else diagonal + 1) (min above left + 1)
    entry :: editRowFrom c entry target (above :: row)
  | _, _ => []

/-- The row below another, one character of the source further on. -/
def editRow (target : List Char) (row : List Nat) (c : Char) : List Nat :=
  let first := row.headD 0 + 1
  first :: editRowFrom c first target row

/-- The edit distance between two texts. -/
def editDistance (source target : List Char) : Nat :=
  (source.foldl (editRow target) (List.range (target.length + 1))).getLastD 0

end Text

/-- A key at a distance. -/
structure Suggestion where
  distance : Nat
  key : String
  deriving DecidableEq, Repr

namespace Suggestion

/-- The order of suggestions: by distance, then by key. -/
def precedes (a b : Suggestion) : Bool :=
  a.distance < b.distance || (a.distance == b.distance && !(b.key < a.key))

/-- The greatest distance of a suggestion: one for keys of up to three bytes, two for others. -/
def maxDistance (target : String) : Nat := if target.utf8ByteSize ≤ 3 then 1 else 2

/-- The keys that are near enough to be suggested. The key itself is not. -/
def eligible (target : String) (available : List String) : List Suggestion :=
  (available.map fun key => ⟨Text.editDistance target.toList key.toList, key⟩).filter fun s =>
    0 < s.distance && s.distance ≤ maxDistance target

/-- At most three keys to suggest for a key that is not available. -/
def suggest (target : String) (available : List String) : List String :=
  (((eligible target available).mergeSort precedes).take 3).map (·.key)

end Suggestion

end Phrasebook
