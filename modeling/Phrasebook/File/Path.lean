import Phrasebook.Text.Basic

/-!
# Paths

Paths are texts with slashes between names. A name of one point stands for the directory it is in,
and one of two points for the directory above.
-/

namespace Phrasebook.Path

/-- The parts of a path between slashes. -/
def parts (path : String) : List String := Text.split path "/"

/-- The names of a path, without the parts that stand for the directory they are in. -/
def names (path : String) : List String := (parts path).filter fun n => n != "" && n != "."

/-- The names from the root to where a path leads. -/
def resolve (path : String) : List String :=
  ((names path).foldl (fun above n => if n = ".." then above.tail else n :: above) []).reverse

/-- Whether a path can only lead to a directory, since it ends with a slash or a point. -/
def isDirectoryForm (path : String) : Bool :=
  match (parts path).getLast? with
  | some last => last == "" || last == "."
  | none => true

/-- The name at the end of a path, if it has one. -/
def fileName? (path : String) : Option String := (names path).getLast?.filter (· != "..")

/-- Splits a file name at its last point. A point at the beginning does not count. -/
def splitName (name : String) : String × Option String :=
  let cs := name.toList.reverse
  let extension := cs.takeWhile (· != '.')
  match cs.dropWhile (· != '.') with
  | _ :: stem@(_ :: _) => (String.ofList stem.reverse, some (String.ofList extension.reverse))
  | _ => (name, none)

/-- The name of a file without its extension. -/
def stem? (path : String) : Option String := (fileName? path).map fun n => (splitName n).1

/-- The extension of a file name. -/
def extension? (name : String) : Option String := (splitName name).2

/-- A path inside of a directory. -/
def join (directory name : String) : String :=
  if directory = "" then name
  else if directory.toList.getLast? = some '/' then directory ++ name
  else directory ++ "/" ++ name

end Phrasebook.Path
