import Phrasebook.Command.Outcome
import Phrasebook.File.Tree
import Phrasebook.Json.Write
import Phrasebook.Translation.Compile

/-!
# Checking documents

The check reads every template of the given documents and reports all syntax errors.
-/

namespace Phrasebook.Command

/-- What is found in one document. -/
structure FileReport where
  path : String
  keys : Nat
  issues : List TemplateIssue
  failure? : Option LoadError

namespace FileReport

/-- The number of errors in a document. -/
def errorCount (r : FileReport) : Nat :=
  (r.issues.map (·.errors.length)).foldr (· + ·) 0 + if r.failure?.isSome then 1 else 0

/-- The problems of a document as data. -/
def problems (r : FileReport) : List Json :=
  let problem (key line column : Json) (message : String) : Json :=
    .object [("file", .string r.path), ("key", key), ("line", line), ("column", column),
      ("message", .string message)]
  let number (n : Nat) : Json := .number (.integer n)
  (r.failure?.toList.map fun e => problem .null .null .null e.message) ++
    r.issues.flatMap fun issue =>
      issue.errors.map fun e =>
        let (line, column) := e.position issue.template
        problem (.string issue.key) (number line) (number column) e.message

/-- The problems of a document, line by line. -/
def summary (r : FileReport) : List String :=
  (r.failure?.toList.map fun e => "error: " ++ r.path ++ ": " ++ e.message) ++
    r.issues.flatMap fun issue =>
      issue.errors.map fun e => r.path ++ "#" ++ issue.key ++ ": syntax error: " ++ e.message

end FileReport

/-- Why documents cannot be checked. -/
inductive CheckError where
  /-- A directory that cannot be listed. -/
  | directory (cause : FileError)
  /-- A document that cannot be read. -/
  | document (path : String) (cause : FileError)
  deriving DecidableEq, Repr

/-- The wording of an error. -/
def CheckError.message : CheckError → String
  | directory cause => cause.message
  | document path cause => "Failed to read " ++ path ++ ": " ++ cause.message

/-- The documents that a path stands for: what has the name of one in a directory, in order, or the
path itself if it is not a directory. -/
def documentsAt (files : FileTree) (path : String) : Except CheckError (List String) :=
  if files.isDirectory path then
    (files.listPaths (FileTree.isDocumentName ·.1) path).mapError .directory
  else .ok [path]

/-- Checks one document. All of its issues are reported, not only the first. -/
def checkFile (files : FileTree) (path : String) : Except CheckError FileReport := do
  let document ← (files.readText path).mapError (.document path)
  match Table.read ((Path.stem? path).getD "") document false with
  | .ok (table, issues) => return ⟨path, table.size, issues, none⟩
  | .error e => return ⟨path, 0, [], some e⟩

/-- Colours a text and makes it bold on a terminal. -/
def coloured (colour : Nat) (text : String) : String :=
  "\x1b[1m\x1b[" ++ toString colour ++ "m" ++ text ++ "\x1b[39m\x1b[0m"

/-- The last line of a check. -/
def verdict (failed : Bool) : String :=
  if failed then coloured 31 "check failed" else coloured 32 "all templates parsed"

/-- The reports of all documents that paths stand for. -/
def reportsAt (files : FileTree) (paths : List String) :
    Except CheckError (List FileReport) := do
  let documents := (← paths.mapM (documentsAt files)).flatten
  documents.mapM (checkFile files)

/-- Checks the documents that paths stand for. -/
def check (files : FileTree) (paths : List String) (asJson : Bool) : Outcome :=
  match reportsAt files paths with
  | .error e => failed e.message
  | .ok [] => failed "no .json resource files found"
  | .ok reports =>
    let faulty := reports.any fun r => 0 < r.errorCount
    let code := if faulty then ExitCode.dataError else .ok
    if asJson then
      ⟨code.number, lines [(Json.array (reports.flatMap (·.problems))).pretty], ""⟩
    else
      let rows := reports.map fun r => [⟨r.path, .left⟩, .ofNat r.keys, .ofNat r.errorCount]
      ⟨code.number, lines (tableLines ["File", "Keys", "Errors"] rows ++ [verdict faulty]),
        lines (reports.flatMap (·.summary))⟩

end Phrasebook.Command
