import Phrasebook.Dictionary
import Phrasebook.File.Path
import Phrasebook.Translation.LoadError

/-!
# File trees

A directory with everything below it, as a value, so that reading and changing files are functions
on it.
-/

namespace Phrasebook

/-- A file, or a directory of files and directories by name. -/
inductive FileTree where
  | file (content : ByteArray)
  | directory (entries : List (String × FileTree))

namespace FileTree

/-- The directory without entries. -/
def empty : FileTree := directory []

instance : Inhabited FileTree := ⟨empty⟩

/-- What names lead to from a place below other directories, the nearest of them first. A name of
two points leads back to the nearest directory; the top is its own. -/
def lookup (above : List FileTree) : FileTree → List String → Except FileError FileTree
  | t, [] => .ok t
  | .file _, _ :: _ => .error .notDirectory
  | .directory entries, name :: names =>
    if name = ".." then
      match above with
      | [] => lookup [] (.directory entries) names
      | parent :: above => lookup above parent names
    else
      match Dictionary.findIn name entries with
      | some t => lookup (.directory entries :: above) t names
      | none => .error .notFound

/-- Puts something where names lead. Directories on the way are made. -/
def put (leaf : FileTree) : List String → FileTree → FileTree
  | [], _ => leaf
  | name :: names, t =>
    let entries :=
      match t with
      | .file _ => []
      | .directory entries => entries
    .directory
      (Dictionary.insertIn name (put leaf names ((Dictionary.findIn name entries).getD empty))
        entries)

/-- Removes what names lead to. -/
def remove : List String → FileTree → FileTree
  | [], _ => empty
  | _, .file content => .file content
  | [name], .directory entries => .directory (entries.filter (·.1 != name))
  | name :: names, .directory entries =>
    match Dictionary.findIn name entries with
    | some t => .directory (Dictionary.insertIn name (remove names t) entries)
    | none => .directory entries

/-- What a path leads to. -/
def find (t : FileTree) (path : String) : Except FileError FileTree := do
  match ← t.lookup [] (Path.names path) with
  | .file content =>
    if Path.isDirectoryForm path then throw .notDirectory else return .file content
  | t => return t

/-- Writes a file. Directories on the way to it are made. -/
def write (t : FileTree) (path : String) (content : ByteArray) : FileTree :=
  put (.file content) (Path.resolve path) t

/-- Makes a directory, unless there is one already. -/
def makeDirectory (t : FileTree) (path : String) : FileTree :=
  match t.find path with
  | .ok (.directory _) => t
  | _ => put empty (Path.resolve path) t

/-- Whether a path leads to a directory. -/
def isDirectory (t : FileTree) (path : String) : Bool :=
  match t.find path with
  | .ok (.directory _) => true
  | _ => false

/-- The text of a file. -/
def readText (t : FileTree) (path : String) : Except FileError String := do
  match ← t.find path with
  | .file content =>
    match String.fromUTF8? content with
    | some s => return s
    | none => throw .notText
  | .directory _ => throw .isDirectory

/-- The entries of a directory. -/
def list (t : FileTree) (path : String) : Except FileError (List (String × FileTree)) := do
  match ← t.find path with
  | .directory entries => return entries
  | .file _ => throw .notDirectory

/-- Whether something is a file. -/
def isFile : FileTree → Bool
  | .file _ => true
  | .directory _ => false

/-- Whether a name has the extension of documents. -/
def isDocumentName (name : String) : Bool := Path.extension? name == some "json"

/-- The paths of some of the entries of a directory, in order. They only differ in the names at
their ends, so this is the order of the names. -/
def listPaths (t : FileTree) (wanted : String × FileTree → Bool) (directory : String) :
    Except FileError (List String) := do
  let entries ← t.list directory
  return ((entries.filter wanted).map fun e => Path.join directory e.1).mergeSort (· ≤ ·)

end FileTree

end Phrasebook
