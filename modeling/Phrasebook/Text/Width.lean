import Phrasebook.Text.Composite

/-!
# Width on a terminal

The number of columns that a text takes on a terminal. Most characters take columns of their own;
selectors, ligatures and composite pictographs make the columns of a character depend on what
stands behind it, so a text is read from its end.
-/

namespace Phrasebook.Text

/-- A character that chooses the form of the one in front of it. -/
inductive Selector where
  /-- The plain form of a pictograph. -/
  | plain
  /-- The coloured form of a pictograph. -/
  | coloured
  /-- A quotation mark of two columns. -/
  | full
  deriving DecidableEq, Repr

/-- The selector that a character is. -/
def Selector.ofChar? (c : Char) : Option Selector :=
  if c.toNat = 0xfe0e then some .plain
  else if c.toNat = 0xfe0f then some .coloured
  else if c.toNat = 0xfe01 then some .full
  else none

/-- Whether a character is a quotation mark that has a form of two columns. -/
def isQuotationMark (c : Char) : Bool := isBetween 0x2018 0x2019 c || isBetween 0x201c 0x201d c

/-- What a character may combine with. -/
inductive Link where
  /-- Nothing. -/
  | nothing
  /-- A line feed, in front of which a carriage return takes no column. -/
  | lineFeed
  /-- A letter of a ligature. -/
  | letter (letter : Letter)
  /-- A part of a composite pictograph. -/
  | part (part : Part)
  deriving DecidableEq, Repr

/-- The link to a letter, if there is one. -/
def Link.ofLetter : Option Letter → Link
  | none => .nothing
  | some l => .letter l

/-- What stands behind a character, as far as the columns of the character depend on it. -/
structure Context where
  selector : Option Selector := none
  link : Link := .nothing
  deriving DecidableEq, Repr

namespace Context

/-- What the character in front of a character sees when the two do not combine. -/
def ofChar (c : Char) : Context :=
  if c = '\n' then ⟨none, .lineFeed⟩
  else
    match Part.ofChar? c with
    | some part => ⟨none, .part part⟩
    | none => ⟨none, Link.ofLetter (Letter.ofChar? c)⟩

/-- A selector in front of what follows. -/
def select (context : Context) (selector : Selector) : Context :=
  ⟨some selector,
    match context.link with
    | .letter letter => if letter.outlastsSelector then .letter letter else .nothing
    | .part part =>
      if selector = .coloured ∧ part.awaitsPictograph then .part part else .nothing
    | _ => .nothing⟩

/-- What is left when the character in front of a selector has no form to choose. -/
def unselect (context : Context) : Context :=
  ⟨none,
    match context.selector, context.link with
    | none, link => link
    | some _, .letter letter => .letter letter
    | some _, _ => .nothing⟩

/-- The columns of a character in a form that the selector behind it chooses, and what the character
in front of it sees. -/
def choose? (context : Context) (c : Char) : Option (Int × Context) :=
  match context.selector with
  | some .coloured =>
    if selectable.holds c then
      let added := match context.link with
        | .part _ => 0
        | _ => 2
      some (added, ⟨none, .part .pictograph⟩)
    else none
  | some .plain => if hasPlainForm c then some (1, {}) else none
  | some .full => if isQuotationMark c then some (2, {}) else none
  | none => none

/-- The columns of a character that combines with what stands behind it, and what the character in
front of it sees. -/
def combine? (context : Context) (c : Char) : Option (Int × Context) :=
  match context.link with
  | .nothing => none
  | .lineFeed => if c = '\r' then some (0, {}) else none
  | .letter letter =>
    match letter.through? c with
    | some letter => some (0, ⟨none, .letter letter⟩)
    | none =>
      (letter.merge? c).map fun merged => (merged.1, ⟨none, Link.ofLetter merged.2⟩)
  | .part part => (part.extend? c).map fun extended => (extended.1, ⟨none, .part extended.2⟩)

/-- The columns of a character, and what the character in front of it sees. -/
def place (context : Context) (c : Char) : Int × Context :=
  match context.choose? c with
  | some placed => placed
  | none =>
    let context := context.unselect
    match Selector.ofChar? c with
    | some selector => (0, context.select selector)
    | none => (context.combine? c).getD (columns c, ofChar c)

end Context

/-- The columns of a text and what a character in front of it sees. -/
def measure (cs : List Char) : Int × Context :=
  cs.foldr (fun c behind =>
    let placed := behind.2.place c
    (placed.1 + behind.1, placed.2)) (0, {})

@[simp] theorem measure_nil : measure [] = (0, {}) := rfl

@[simp] theorem measure_cons (c : Char) (cs : List Char) :
    measure (c :: cs) =
      (((measure cs).2.place c).1 + (measure cs).1, ((measure cs).2.place c).2) := rfl

/-- The columns of a text. -/
def width (s : String) : Nat := (measure s.toList).1.toNat

end Phrasebook.Text
