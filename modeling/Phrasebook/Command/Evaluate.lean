import Phrasebook.Catalog.Load
import Phrasebook.Catalog.Translate
import Phrasebook.Command.Outcome
import Phrasebook.Json.Write
import Phrasebook.Template.Print

/-!
# Evaluating templates and messages

The evaluation renders a template, or a message by its key, with variables from the command line.
-/

namespace Phrasebook.Command

/-- What is to be rendered. -/
inductive Subject where
  /-- A template, of which only the tree may be wanted. -/
  | template (source : String) (asTree : Bool)
  | key (key : String)
  deriving DecidableEq, Repr

/-- What an evaluation is given. -/
structure Evaluation where
  subject : Subject
  formatName : String
  locale : String
  resources? : Option String
  vars : List (String × String)
  asJson : Bool
  deriving Repr

namespace Evaluation

/-- The value of a variable: an integer or a number if it reads as one, and text otherwise. -/
def valueOf (written : String) : Value :=
  match Number.readInt64? written with
  | some n => .int n
  | none =>
    match Number.readFloat? written with
    | some x => .float x
    | none => .text written

/-- The variables of an evaluation. -/
def bindings (e : Evaluation) : Vars := .ofList (e.vars.map fun v => (v.1, valueOf v.2))

/-- The catalog of an evaluation. -/
def catalog (e : Evaluation) (files : FileTree) : Except LoadError Catalog :=
  let new := Catalog.new { fallback := e.locale }
  match e.resources? with
  | none => .ok new
  | some directory =>
    match ((Catalog.loadDirectory files directory).run new).run with
    | (.ok _, c) => .ok c
    | (.error error, _) => .error error

/-- The outcome for a rendered text. -/
def rendered (e : Evaluation) (format : Format) (locale text : String) : Outcome :=
  let text :=
    if e.asJson then
      (Json.object [("result", .string text), ("locale", .string locale),
        ("runtime", .string format.name)]).pretty
    else text
  ⟨ExitCode.ok.number, lines [text], ""⟩

/-- The outcome for an error. -/
def unrendered (e : Evaluation) (message : String) : Outcome :=
  let text :=
    if e.asJson then (Json.object [("error", .string message)]).pretty
    else "Evaluation error: " ++ message
  ⟨ExitCode.dataError.number, "", lines [text]⟩

/-- The outcome of rendering with a catalog in a format. -/
def runWith (e : Evaluation) (c : Catalog) (format : Format) : Outcome :=
  let (locale, _) := c.closest [e.locale]
  match e.subject with
  | .key key =>
    match c.translate format locale ((Message.ofKey key).withVars e.bindings) with
    | .ok text => e.rendered format locale text
    | .error error => e.unrendered error.message
  | .template source asTree =>
    match Template.parse source with
    | .error rejected =>
      ⟨ExitCode.dataError.number, "", lines (rejected.errors.map ("syntax error: " ++ ·.message))⟩
    | .ok t =>
      if asTree then ⟨ExitCode.ok.number, lines [t.print], ""⟩
      else
        let table := (c.snapshot.tables.find? locale).getD ∅
        match (((c.scope format locale e.bindings table).eval t).runAt 0).1 with
        | .ok v => e.rendered format locale (format.render v)
        | .error error => e.unrendered error.message

/-- Runs an evaluation. -/
def run (e : Evaluation) (files : FileTree) : Outcome :=
  match Format.ofName? e.formatName with
  | none =>
    failed ("unknown runtime '" ++ e.formatName ++ "': expected markdown, html or js")
  | some format =>
    match e.catalog files with
    | .ok c => e.runWith c format
    | .error error => failed error.message

end Evaluation

end Phrasebook.Command
