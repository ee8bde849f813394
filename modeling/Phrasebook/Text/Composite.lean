import Phrasebook.Text.Pictograph
import Phrasebook.Text.Ligature

/-!
# Composite pictographs

Pictographs are composed of several characters: a person and a skin tone, two region letters of a
flag, a black flag and its tags, and pictographs with a joiner between them. A text is read from its
end, so what a character belongs to is given by the part of the composite that stands behind it.
-/

namespace Phrasebook.Text

/-- The part of a composite from a joiner on. -/
inductive Joined where
  /-- A joiner and a pictograph. -/
  | pictograph
  /-- A key cap in front of them. -/
  | keyCap
  /-- A region letter in front of them. -/
  | region
  /-- An even number of region letters in front of them. -/
  | evenRegions
  /-- An odd number of region letters, three at least, in front of them. -/
  | oddRegions
  /-- The end of a tag and the given number of letters in front of them. -/
  | tagLetters (count : Nat)
  /-- The end of a tag, some letters, and the given number of digits in front of them. -/
  | tagDigits (count : Nat)
  deriving DecidableEq, Repr

/-- The part of a composite that stands behind a character. -/
inductive Part where
  /-- A pictograph. -/
  | pictograph
  /-- A skin tone. -/
  | skinTone
  /-- A region letter. -/
  | region
  /-- Several region letters. -/
  | regions
  /-- A part that starts with a joiner or continues in front of it. -/
  | joined (tail : Joined)
  deriving DecidableEq, Repr

namespace Part

/-- The part that a character starts by itself. -/
def ofChar? (c : Char) : Option Part :=
  if isRegionLetter c then some .region
  else if isSkinTone c then some .skinTone
  else if colourful.holds c then some .pictograph
  else none

/-- Whether a selector for pictographs in front of a part leaves it to be joined. -/
def awaitsPictograph : Part → Bool
  | .joined .pictograph | .joined .keyCap => true
  | _ => false

/-- Whether a joiner may stand in front of a part. -/
def joinable : Part → Bool
  | .pictograph | .skinTone | .regions | .joined .evenRegions | .joined .oddRegions => true
  | _ => false

end Part

/-- The columns that a character adds to the part from a joiner on, and the part that it starts. A
pictograph in front of the joiner shares the columns of the one behind it, and so do the region
letters of a flag, each pair of them together. -/
def Joined.extend? (tail : Joined) (c : Char) : Option (Int × Part) :=
  match tail with
  | .pictograph =>
    if c.toNat = 0x20e3 then some (0, .joined .keyCap)
    else if isRegionLetter c then some (1, .joined .region)
    else if isSkinTone c then some (0, .skinTone)
    else if c.toNat = 0xe007f then some (0, .joined (.tagLetters 0))
    else if colourful.holds c then some (0, .pictograph)
    else none
  | .keyCap => none
  | .region | .oddRegions => if isRegionLetter c then some (-1, .joined .evenRegions) else none
  | .evenRegions => if isRegionLetter c then some (3, .joined .oddRegions) else none
  | .tagLetters count =>
    if isTagLetter c && count < 6 then some (0, .joined (.tagLetters (count + 1)))
    else if isTagDigit c && count < 5 then some (0, .joined (.tagDigits 1))
    else if c.toNat = 0x1f3f4 ∧ 3 ≤ count then some (0, .pictograph)
    else none
  | .tagDigits count =>
    if isTagDigit c && count < 3 then some (0, .joined (.tagDigits (count + 1)))
    else if c.toNat = 0x1f3f4 ∧ count = 3 then some (0, .pictograph)
    else none

/-- The columns that a character adds to the composite behind it, and the part that it starts. -/
def Part.extend? (part : Part) (c : Char) : Option (Int × Part) :=
  if part.joinable && isJoiner c then some (0, .joined .pictograph)
  else
    match part with
    | .pictograph => none
    | .skinTone => if tintable.holds c then some (0, .pictograph) else none
    | .region | .regions => if isRegionLetter c then some (1, .regions) else none
    | .joined tail => tail.extend? c

end Phrasebook.Text
