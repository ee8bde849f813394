import Phrasebook.Command.Run

/-!
# The program

Reads the files that the arguments name, runs the command on them, and prints its outcome. What the
command does is decided by `Command.run`; here are only input and output.
-/

namespace Phrasebook

/-- Adds a file or directory to a tree, if there is one at a path. Of a directory, the files
directly inside of it are added, and the directories in it without their contents. -/
def addPath (files : FileTree) (path : String) : IO FileTree := do
  let place := (← IO.currentDir) / path
  if ← place.isDir then
    let mut files := files.makeDirectory path
    for entry in ← place.readDir do
      let name := Path.join path entry.fileName
      if ← entry.path.isDir then files := files.makeDirectory name
      else files := files.write name (← IO.FS.readBinFile entry.path)
    return files
  else if ← place.pathExists then return files.write path (← IO.FS.readBinFile place)
  else return files

/-- The paths that an argument may name: itself, and the value of an option in it. -/
def pathsIn (arg : String) : List String :=
  let (_, value?) := Command.splitOption arg.toList
  (arg :: value?.toList).filter Command.isPath

end Phrasebook

open Phrasebook in
/-- Runs the program with the arguments of the command line. -/
def main (args : List String) : IO UInt32 := do
  let files ← (args.flatMap pathsIn).foldlM addPath FileTree.empty
  let outcome := Command.run files args
  IO.print outcome.output
  IO.eprint outcome.errors
  return outcome.code.toUInt32
