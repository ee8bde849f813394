import Phrasebook.Catalog.Basic
import Phrasebook.Catalog.Load
import Phrasebook.Catalog.Suggestion
import Phrasebook.Catalog.Translate
import Phrasebook.Command.Arguments
import Phrasebook.Command.Check
import Phrasebook.Command.Coverage
import Phrasebook.Command.Evaluate
import Phrasebook.Command.Outcome
import Phrasebook.Command.Run
import Phrasebook.Dictionary
import Phrasebook.Evaluation.Basic
import Phrasebook.Evaluation.Depth
import Phrasebook.File.Path
import Phrasebook.File.Tree
import Phrasebook.Json.Basic
import Phrasebook.Json.Number
import Phrasebook.Json.Read
import Phrasebook.Json.Write
import Phrasebook.Main
import Phrasebook.Markup.Escape
import Phrasebook.Markup.Format
import Phrasebook.Message
import Phrasebook.Number.Binary
import Phrasebook.Number.Integer
import Phrasebook.Number.Read
import Phrasebook.Number.Shortest
import Phrasebook.Number.Text
import Phrasebook.Plural.Category
import Phrasebook.Plural.Locale
import Phrasebook.Template.Outline
import Phrasebook.Template.Parse
import Phrasebook.Template.Print
import Phrasebook.Template.Scan
import Phrasebook.Template.SyntaxError
import Phrasebook.Template.Token
import Phrasebook.Template.Tree
import Phrasebook.Text.Basic
import Phrasebook.Text.Columns
import Phrasebook.Text.Composite
import Phrasebook.Text.Ligature
import Phrasebook.Text.Pictograph
import Phrasebook.Text.Quoted
import Phrasebook.Text.Width
import Phrasebook.Time.Calendar
import Phrasebook.Time.Duration
import Phrasebook.Time.Moment
import Phrasebook.Time.Zone
import Phrasebook.Translation.Basic
import Phrasebook.Translation.Compile
import Phrasebook.Translation.LoadError
import Phrasebook.Value.Arithmetic
import Phrasebook.Value.Basic
import Phrasebook.Value.Data
import Phrasebook.Value.Function
import Phrasebook.Value.Order
import Phrasebook.Proofs.Evaluation.Yields
import Phrasebook.Proofs.Markup.Raw
import Phrasebook.Proofs.Markup.Html
import Phrasebook.Proofs.Template.Lexeme
import Phrasebook.Proofs.Template.Scanner
import Phrasebook.Proofs.Template.Reader
import Phrasebook.Proofs.Template.Soundness
import Phrasebook.Proofs.Evaluation.Levels
import Phrasebook.Proofs.Evaluation.Nesting
import Phrasebook.Proofs.Template.Recovery
import Phrasebook.Proofs.Template.Relocation
import Phrasebook.Proofs.Template.Seam
import Phrasebook.Proofs.Template.Concatenation
import Phrasebook.Proofs.Template.Economy
import Phrasebook.Proofs.Markup.Script
import Phrasebook.Proofs.Evaluation.Congruence
import Phrasebook.Proofs.Evaluation.Descent
import Phrasebook.Proofs.Translation.Choice
import Phrasebook.Proofs.Translation.Compilation
import Phrasebook.Proofs.Translation.Leaf
import Phrasebook.Proofs.Catalog.Nested
import Phrasebook.Proofs.Translation.Strictness
import Phrasebook.Proofs.Catalog.History
import Phrasebook.Proofs.Command.Check
import Phrasebook.Proofs.Evaluation.Indifference
import Phrasebook.Proofs.Evaluation.Limit
import Phrasebook.Proofs.Template.Shape
import Phrasebook.Proofs.Evaluation.Variables
import Phrasebook.Proofs.Markup.Escaping
import Phrasebook.Proofs.Evaluation.Termination
import Phrasebook.Proofs.Catalog.Runaway
import Phrasebook.Proofs.Template.Alike
import Phrasebook.Proofs.Template.Blanks
import Phrasebook.Proofs.Translation.Condition
import Phrasebook.Proofs.Translation.Keys
import Phrasebook.Proofs.Evaluation.Failures
import Phrasebook.Proofs.Translation.Sources
import Phrasebook.Proofs.Evaluation.Accepted
import Phrasebook.Proofs.Value.Order
import Phrasebook.Proofs.Text.Splitting
import Phrasebook.Proofs.Catalog.Closest
import Phrasebook.Proofs.Evaluation.Values
import Phrasebook.Proofs.Evaluation.Positions
import Phrasebook.Proofs.Markup.Layers
import Phrasebook.Proofs.Markup.Wrapping
import Phrasebook.Proofs.Number.Digits
import Phrasebook.Proofs.Value.Exclusion
import Phrasebook.Proofs.Text.Position
import Phrasebook.Proofs.Template.ErrorOrder
import Phrasebook.Proofs.Template.Height
import Phrasebook.Proofs.Template.Quoting
import Phrasebook.Proofs.Value.Sequence
import Phrasebook.Proofs.Value.Size
import Phrasebook.Proofs.Template.Numerals
import Phrasebook.Proofs.Markup.Unescaping
import Phrasebook.Proofs.Number.Quantity
import Phrasebook.Proofs.Time.Units
import Phrasebook.Proofs.Catalog.Suggestions
import Phrasebook.Proofs.Text.Edits
import Phrasebook.Proofs.Number.Rounding
import Phrasebook.Proofs.Number.Floating
import Phrasebook.Proofs.Number.Remainder
import Phrasebook.Proofs.Time.Breakdown
import Phrasebook.Proofs.Evaluation.Context
import Phrasebook.Proofs.Value.Arithmetic
import Phrasebook.Proofs.Command.Coverage
import Phrasebook.Proofs.Template.Printing
import Phrasebook.Proofs.Template.Outline
