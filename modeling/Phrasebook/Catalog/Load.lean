import Phrasebook.Catalog.Basic
import Phrasebook.File.Tree
import Phrasebook.Translation.Compile

/-!
# Loading

Loading puts the table of a document in place of the one that a locale had. A document that fails
leaves the catalog as it is.
-/

namespace Phrasebook.Catalog

/-- Loading changes a catalog and may fail. What was loaded before a failure stays. -/
abbrev Load (α : Type) := ExceptT LoadError (StateM Catalog) α

/-- Loads a document for a locale, and remembers its file if it comes from one. -/
def loadFrom (path? : Option String) (locale document : String) : Load (List TemplateIssue) := do
  let c ← get
  match Table.read locale document c.settings.strict with
  | .ok (table, issues) =>
    set { c with snapshot := c.snapshot.publish locale table path? }
    return issues
  | .error e => throw e

/-- Loads a document for a locale. -/
def loadText (locale document : String) : Load (List TemplateIssue) :=
  loadFrom none locale document

/-- Loads a document that is given by its bytes. -/
def loadBytes (locale : String) (bytes : ByteArray) : Load (List TemplateIssue) :=
  match String.fromUTF8? bytes with
  | some document => loadText locale document
  | none => throw (.file .notText)

/-- The result of reading files. -/
def reading (result : Except FileError α) : Load α :=
  match result with
  | .ok a => pure a
  | .error e => throw (.file e)

/-- Loads a file. Its name without the extension is the locale. -/
def loadFile (files : FileTree) (path : String) : Load (List TemplateIssue) := do
  match (Path.stem? path).filter (· != "") with
  | some locale => loadFrom (some path) locale (← reading (files.readText path))
  | none => throw .invalidPath

/-- Loads files one after the other until one fails. -/
def loadFiles (files : FileTree) : List String → Load (List TemplateIssue)
  | [] => pure []
  | path :: paths => return (← loadFile files path) ++ (← loadFiles files paths)

/-- Whether an entry of a directory is a document. -/
def isDocument (entry : String × FileTree) : Bool :=
  entry.2.isFile && FileTree.isDocumentName entry.1

/-- The documents directly inside of a directory, in order. -/
def documents (files : FileTree) (directory : String) : Except FileError (List String) :=
  files.listPaths isDocument directory

/-- Loads the documents directly inside of a directory, in order, until one fails. -/
def loadDirectory (files : FileTree) (directory : String) : Load (List TemplateIssue) := do
  loadFiles files (← reading (documents files directory))

/-- Loads a locale again from the file it came from. -/
def reload (files : FileTree) (locale : String) : Load (List TemplateIssue) := do
  match (← get).snapshot.paths.find? locale with
  | some path => loadFile files path
  | none => throw (.noFile locale)

end Phrasebook.Catalog
