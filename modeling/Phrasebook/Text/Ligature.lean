import Phrasebook.Text.Columns

/-!
# Ligatures

In some scripts a letter merges with the one before it and the two share columns. A text is read
from its end, so a letter that may merge is known before the character in front of it. Some of these
ligatures need a joiner between the two letters, and all but those of alef look through marks that
are shown as nothing.
-/

namespace Phrasebook.Text

/-- A joiner between two characters. -/
def isJoiner (c : Char) : Bool := c.toNat == 0x200d

/-- A letter that may merge with the character in front of it. A letter that merges over a joiner
only is told whether the joiner has been seen. -/
inductive Letter where
  /-- An Arabic alef, which merges with a lam. -/
  | alef
  /-- A Hebrew lamed, which merges with an alef. -/
  | lamed (joined : Bool)
  /-- A Khmer letter that is written below another one. -/
  | subscribed
  /-- A Buginese ya, which merges with a vowel and the letter a. -/
  | ya (joined : Bool)
  /-- A Buginese vowel in front of a ya. -/
  | vowelOfYa
  /-- A Tifinagh consonant, which merges with a second one. -/
  | consonant (joined : Bool)
  /-- A Tifinagh consonant behind a consonant joiner. -/
  | linkedConsonant
  /-- A Lisu tone letter, which merges with another one. -/
  | tone
  /-- An Old Turkic i, which merges with a consonant. -/
  | orkhonI (joined : Bool)
  /-- A Kirat Rai vowel e, which is a part of other vowels. -/
  | vowelE
  /-- A Kirat Rai vowel ai, which is a part of the vowel au. -/
  | vowelAI
  deriving DecidableEq, Repr

/-- Forms of the Arabic letter alef. -/
def alefs : CharProperty :=
  ⟨[0x622, 0x624, 0x625, 0x626, 0x627, 0x628, 0x671, 0x674, 0x675, 0x676, 0x773, 0x775, 0x870,
    0x883]⟩

/-- Forms of the Arabic letter lam. -/
def lams : CharProperty :=
  ⟨[0x644, 0x645, 0x6b5, 0x6b9, 0x76a, 0x76b, 0x8a6, 0x8a7, 0x8c7, 0x8c8]⟩

/-- Khmer letters that have a form below another letter. -/
def subscribable : CharProperty :=
  ⟨[0x1780, 0x1783, 0x1784, 0x1788, 0x1789, 0x178d, 0x178e, 0x1794, 0x1795, 0x1799, 0x179b, 0x179e,
    0x17a0, 0x17a1, 0x17a2, 0x17a3, 0x17a7, 0x17a8, 0x17ab, 0x17ad, 0x17af, 0x17b0]⟩

/-- Tifinagh consonants. -/
def tifinagh : CharProperty := ⟨[0x2d31, 0x2d66, 0x2d6f, 0x2d70]⟩

/-- Marks that are shown as nothing, which ligatures look through. -/
def invisibleMarks : CharProperty :=
  ⟨[0x34f, 0x350, 0x17b4, 0x17b6, 0x180b, 0x180e, 0x180f, 0x1810, 0xfe00, 0xfe10, 0xe0100, 0xe01f0]⟩

namespace Letter

/-- The letter that a character is, if it may merge with the one in front of it. -/
def ofChar? (c : Char) : Option Letter :=
  if alefs.holds c then some .alef
  else if c.toNat = 0x5dc then some (.lamed false)
  else if subscribable.holds c then some .subscribed
  else if c.toNat = 0x1a10 then some (.ya false)
  else if tifinagh.holds c then some (.consonant false)
  else if isBetween 0xa4fc 0xa4fd c then some .tone
  else if c.toNat = 0x10c03 then some (.orkhonI false)
  else if c.toNat = 0x16d67 then some .vowelE
  else if c.toNat = 0x16d68 then some .vowelAI
  else none

/-- Whether a selector in front of a letter leaves it to merge all the same. -/
def outlastsSelector : Letter → Bool
  | .vowelE | .vowelAI => false
  | _ => true

/-- Whether marks that are shown as nothing may stand in front of a letter in a ligature. -/
def looksThrough : Letter → Bool
  | .alef | .vowelE | .vowelAI => false
  | _ => true

/-- A letter behind a joiner. -/
def joined : Letter → Letter
  | .lamed _ => .lamed true
  | .ya _ => .ya true
  | .consonant _ => .consonant true
  | .orkhonI _ => .orkhonI true
  | letter => letter

/-- The letter that is left when a ligature looks through a character. -/
def through? (letter : Letter) (c : Char) : Option Letter :=
  if !letter.looksThrough then none
  else if isJoiner c then some letter.joined
  else if invisibleMarks.holds c then some letter
  else none

/-- The columns that a character adds when it merges with the letter behind it, and the letter that
the next character may merge with. The sign that puts a Khmer letter below another one takes the
column of that letter back, as does a consonant in front of a consonant joiner. -/
def merge? (letter : Letter) (c : Char) : Option (Int × Option Letter) :=
  match letter with
  | .alef =>
    if lams.holds c then some (0, none)
    else if isTransparent c then some (0, some .alef)
    else none
  | .lamed joined => if joined && c.toNat == 0x5d0 then some (0, none) else none
  | .subscribed => if c.toNat = 0x17d2 then some (-1, none) else none
  | .ya joined => if joined && c.toNat == 0x1a17 then some (0, some .vowelOfYa) else none
  | .vowelOfYa => if c.toNat = 0x1a15 then some (0, none) else none
  | .consonant joined =>
    if c.toNat = 0x2d7f then some (1, some .linkedConsonant)
    else if joined && tifinagh.holds c then some (0, none)
    else none
  | .linkedConsonant => if tifinagh.holds c then some (-1, none) else none
  | .tone => if isBetween 0xa4f8 0xa4fb c then some (0, none) else none
  | .orkhonI joined => if joined && c.toNat == 0x10c32 then some (0, none) else none
  | .vowelE =>
    if c.toNat = 0x16d63 then some (0, none)
    else if c.toNat = 0x16d67 then some (0, some .vowelAI)
    else if c.toNat = 0x16d68 then some (1, some .vowelE)
    else if c.toNat = 0x16d69 then some (0, none)
    else none
  | .vowelAI => if c.toNat = 0x16d63 then some (0, none) else none

end Letter

end Phrasebook.Text
