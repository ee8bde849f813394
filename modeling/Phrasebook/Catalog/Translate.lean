import Phrasebook.Catalog.Basic
import Phrasebook.Catalog.Suggestion

/-!
# Translating messages

A message is translated by the translation of its key in a locale. If there is none, or it fails,
the message is shown as its own text, and similar keys are suggested.
-/

namespace Phrasebook

/-- Why a message has no translation. -/
inductive TranslateError.Cause where
  /-- There is no such key, or no alternative applies. -/
  | notFound (suggestions : List String)
  | failed (error : EvalError)
  deriving Repr

/-- A message without a translation, and the text in its place. -/
structure TranslateError where
  key : String
  locale : String
  rendered : String
  cause : TranslateError.Cause
  deriving Repr

namespace TranslateError

/-- The part of the wording that names similar keys. -/
def hint (suggestions : List String) : String :=
  if suggestions = [] then "" else "; did you mean: " ++ ", ".intercalate suggestions ++ "?"

/-- The wording of an error. -/
def message (e : TranslateError) : String :=
  match e.cause with
  | .notFound suggestions =>
    "message not found: '" ++ e.key ++ "' in locale '" ++ e.locale ++ "'" ++ hint suggestions
  | .failed error =>
    "failed to evaluate '" ++ e.key ++ "' in locale '" ++ e.locale ++ "': " ++ error.message

end TranslateError

namespace Catalog

/-- The scope in which the messages of a locale are evaluated. -/
def scope (c : Catalog) (format : Format) (locale : String) (vars : Vars) (table : Table) : Scope :=
  ⟨format, locale, vars, table, c.settings.maxDepth⟩

/-- Translates a message. The message without a key is the empty text. -/
def translate (c : Catalog) (format : Format) (locale : String) (m : Message) :
    Except TranslateError String :=
  let error (cause : TranslateError.Cause) : Except TranslateError String :=
    .error ⟨m.key, locale, m.debugText, cause⟩
  if m.key = "" then .ok ""
  else
    match c.snapshot.tables.find? locale with
    | none => error (.notFound [])
    | some table =>
      match table.find? m.key with
      | none => error (.notFound (Suggestion.suggest m.key table.names))
      | some t =>
        match (((c.scope format locale m.vars table).translate t).runAt 0).1 with
        | .ok (some v) => .ok (format.render v)
        | .ok none => error (.notFound [])
        | .error e => error (.failed e)

/-- The translation of a message as a value. -/
def translateValue (c : Catalog) (format : Format) (locale : String) (m : Message) :
    Except TranslateError Value :=
  (c.translate format locale m).map .raw

/-- The translation of a message, or the text in its place. -/
def text (c : Catalog) (format : Format) (locale : String) (m : Message) : String :=
  match c.translate format locale m with
  | .ok s => s
  | .error e => e.rendered

/-- The text of a message that is shown as an error. -/
def errorText (c : Catalog) (m : Message) : String := c.text .markdown c.settings.errors m

end Catalog

end Phrasebook
