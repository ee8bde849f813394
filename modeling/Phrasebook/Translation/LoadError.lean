import Phrasebook.Template.SyntaxError

/-!
# What can go wrong with a document of translations

A template with syntax errors is an issue, which may or may not fail the document. Other problems
always do.
-/

namespace Phrasebook

/-- A template that has syntax errors, by the key of its translation. -/
structure TemplateIssue where
  key : String
  template : String
  errors : List SyntaxError
  deriving DecidableEq, Repr

/-- The wording of an issue: the key and all errors on one line. -/
def TemplateIssue.text (issue : TemplateIssue) : String :=
  issue.key ++ ": " ++ "; ".intercalate (issue.errors.map (·.message))

/-- Why a file or directory cannot be read. -/
inductive FileError where
  | notFound
  | notText
  | isDirectory
  | notDirectory
  deriving DecidableEq, Repr

/-- The wording of why a file or directory cannot be read. -/
def FileError.message : FileError → String
  | notFound => "No such file or directory (os error 2)"
  | notText => "stream did not contain valid UTF-8"
  | isDirectory => "Is a directory (os error 21)"
  | notDirectory => "Not a directory (os error 20)"

/-- Why translations cannot be loaded. -/
inductive LoadError where
  | file (cause : FileError)
  /-- A file whose name gives no locale. -/
  | invalidPath
  /-- A document that is not well-formed. -/
  | malformed (locale : String)
  /-- A document that is not an object. -/
  | notAnObject (locale found : String)
  /-- A template with syntax errors, where none are accepted. -/
  | rejected (locale : String) (issue : TemplateIssue)
  /-- A translation that is neither a string nor an array. -/
  | unsupported (locale key found : String)
  /-- A locale to load again that did not come from a file. -/
  | noFile (locale : String)
  deriving DecidableEq, Repr

/-- The wording of an error. -/
def LoadError.message : LoadError → String
  | file _ => "failed to read the file"
  | invalidPath => "cannot derive a locale from the path"
  | malformed locale => "locale " ++ locale ++ ": decode translation JSON: "
  | notAnObject locale found =>
    "locale " ++ locale ++ ": expected a JSON object, found " ++ found
  | rejected locale issue => "locale " ++ locale ++ ": " ++ issue.text
  | unsupported locale key found =>
    "locale " ++ locale ++ ": " ++ key ++ ": cannot load " ++ found ++ " value"
  | noFile locale => "cannot reload '" ++ locale ++ "': was not loaded from a file"

end Phrasebook
