import Phrasebook.Markup.Escape
import Phrasebook.Value.Basic

/-!
# Output formats

Templates are rendered as Markdown, as HTML, or as HTML inside a script string. A format decides
what emphasis and links look like and how text is escaped; text that is already markup is raw and
stays as it is when a value is rendered.
-/

namespace Phrasebook

/-- A format of the output. -/
inductive Format where
  | markdown
  | html
  | script
  deriving DecidableEq, Repr

namespace Format

/-- The name of a format. -/
def name : Format → String
  | markdown => "markdown"
  | html => "html"
  | script => "js"

/-- The format of a name or an alternative name. -/
def ofName? : String → Option Format
  | "markdown" | "md" => some markdown
  | "html" => some html
  | "js" | "javascript" => some script
  | _ => none

/-- How text is escaped when a value is rendered. Markdown is not escaped. -/
def escape : Format → String → String
  | markdown => id
  | html => Markup.escapeHtml
  | script => Markup.escapeScript

/-- The markup of a text between two delimiters; there is none for the empty text. -/
def enclose (opening text closing : String) : Value :=
  if text = "" then .raw "" else .raw (opening ++ text ++ closing)

/-- A value in bold. -/
def bold (f : Format) (v : Value) : Value :=
  match f with
  | markdown => enclose "**" v.toText "**"
  | _ => enclose "<b>" (f.escape v.toText) "</b>"

/-- A value in italics. -/
def italic (f : Format) (v : Value) : Value :=
  match f with
  | markdown => enclose "*" v.toText "*"
  | _ => enclose "<i>" (f.escape v.toText) "</i>"

/-- The attribute that names the window for a link; there is none for an empty name. -/
def targetAttribute (f : Format) (target : String) : String :=
  if target = "" then "" else " target=\"" ++ f.escape target ++ "\""

/-- A link. Markdown has no place for the target. -/
def link (f : Format) (label href target : Value) : Value :=
  match f with
  | markdown =>
    .raw ("[" ++ Markup.escapeHtml label.toText ++ "](" ++ Markup.escapeHtml href.toText ++ ")")
  | _ =>
    .raw ("<a href=\"" ++ f.escape href.toText ++ "\"" ++ f.targetAttribute target.toText ++ ">" ++
      f.escape label.toText ++ "</a>")

/-- The rendering of a value behind output that is already there. -/
def appendTo (f : Format) (front : String) : Value → String
  | .raw s => front ++ s
  | .list items => appendItems f front items
  | v => front ++ f.escape v.toText
where
  /-- The renderings of items behind output that is already there. -/
  appendItems (f : Format) (front : String) : List Value → String
    | [] => front
    | v :: items => appendItems f (appendTo f front v) items

/-- The final text of a value: raw text as it is and everything else escaped. -/
def render (f : Format) (v : Value) : String := f.appendTo "" v

end Format

end Phrasebook
