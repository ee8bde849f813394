import Phrasebook.Text.Basic
import Phrasebook.Text.Width

/-!
# Outcomes of commands

What a command leaves behind: an exit code, and what it prints on the two output streams.

A table has a border around it, a rule below its header, and one blank on both sides of every cell.
Columns are as wide as their widest cell, and a blank stands between them. A cell may have several
lines, and a row has as many as its tallest cell.
-/

namespace Phrasebook.Command

/-- The outcome of a command. -/
structure Outcome where
  code : Nat
  output : String := ""
  errors : String := ""
  deriving DecidableEq, Repr

/-- The exit codes of commands. -/
inductive ExitCode where
  /-- All is well. -/
  | ok
  /-- The arguments are wrong. -/
  | usage
  /-- The data has faults. -/
  | dataError
  /-- The command could not do its work. -/
  | failure
  deriving DecidableEq, Repr

/-- The number of an exit code. -/
def ExitCode.number : ExitCode → Nat
  | ok => 0
  | usage => 2
  | dataError => 65
  | failure => 70

/-- Lines, each of which is ended. -/
def lines (ls : List String) : String := String.join (ls.map (· ++ "\n"))

/-- A command that could not do its work, for the given reason. -/
def failed (reason : String) : Outcome := ⟨ExitCode.failure.number, "", lines ["error: " ++ reason]⟩

/-- On which side the blanks of a cell are. -/
inductive Align where
  | left
  | right
  deriving DecidableEq, Repr

/-- A cell of a table. -/
structure Cell where
  text : String
  align : Align := .left

namespace Cell

/-- A cell with a count. -/
def ofNat (n : Nat) : Cell := ⟨toString n, .right⟩

/-- The lines of a cell. -/
def lines (cell : Cell) : List String := Text.split cell.text "\n"

/-- The columns that the widest line of a cell takes. -/
def width (cell : Cell) : Nat := (cell.lines.map Text.width).foldl max 0

/-- A line of a cell in a column of the given width, blank below the last one. -/
def renderLine (cell : Cell) (columnWidth line : Nat) : String :=
  let text := cell.lines.getD line ""
  let fill := String.ofList (List.replicate (columnWidth - Text.width text) ' ')
  match cell.align with
  | .left => " " ++ text ++ fill ++ " "
  | .right => " " ++ fill ++ text ++ " "

end Cell

/-- The wider of two columns, place by place. -/
def widest : List Nat → List Nat → List Nat
  | [], ns => ns
  | ms, [] => ms
  | m :: ms, n :: ns => max m n :: widest ms ns

/-- The widths of the columns of rows. -/
def columnWidths (rows : List (List Cell)) : List Nat :=
  (rows.map fun row => row.map Cell.width).foldl widest []

/-- A horizontal line of a table. -/
def rule (opening line closing : Char) (length : Nat) : String :=
  String.ofList (opening :: (List.replicate length line ++ [closing]))

/-- The lines of a row of a table. -/
def tableRow (widths : List Nat) (row : List Cell) : List String :=
  let height := (row.map fun cell => cell.lines.length).foldl max 1
  (List.range height).map fun line =>
    "│" ++ " ".intercalate (List.zipWith (·.renderLine · line) row widths) ++ "│"

/-- The lines of a table with a header. -/
def tableLines (header : List String) (rows : List (List Cell)) : List String :=
  let header := header.map (⟨·, .left⟩)
  let widths := columnWidths (header :: rows)
  let inner := (widths.map (· + 2)).foldr (· + ·) 0 + (widths.length - 1)
  rule '┌' '─' '┐' inner :: (tableRow widths header ++ rule '╞' '═' '╡' inner ::
    (rows.flatMap (tableRow widths) ++ [rule '└' '─' '┘' inner]))

end Phrasebook.Command
