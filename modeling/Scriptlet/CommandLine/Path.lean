/-! File names and where they lead. -/
namespace Scriptlet.CommandLine

/-- The parts of a path between its slashes; empty ones and single dots lead nowhere. -/
def components (path : String) : List String :=
  (path.splitOn "/").filter fun part => part != "" && part != "."

/-- The last part, which names the file. -/
def fileName (path : String) : String := (components path).getLast?.getD ""

/-- From the last dot of a name, unless that is its first or last character. -/
def suffix (name : String) : String :=
  let cs := name.toList
  let tail := (cs.reverse.takeWhile (· != '.')).reverse
  let size := tail.length + 1
  if tail ≠ [] ∧ size < cs.length then String.ofList ('.' :: tail) else ""

/-- The files and directories below one directory, by their paths. -/
structure Folder where
  files : List (String × String)
  directories : List String

namespace Folder

/-- A directory that is there, or that something is in. -/
def isDirectory (f : Folder) (path : List String) : Bool :=
  path.isEmpty ||
    (f.directories ++ f.files.map (·.1)).any fun p =>
      let parts := components p
      path.isPrefixOf parts && (parts.length != path.length || f.directories.contains p)

/-- Follows the parts from one directory; two dots lead back to the directory above it. Nothing is
outside of the folder. -/
def follow? (f : Folder) (here : List String) : List String → Option (List String)
  | [] => some here
  | part :: parts =>
    if !f.isDirectory here then none
    else if part = ".." then
      if here = [] then none else f.follow? here.dropLast parts
    else f.follow? (here ++ [part]) parts

/-- The text of a file. -/
def read? (f : Folder) (path : String) : Option String :=
  if path.startsWith "/" then none
  else (f.follow? [] (components path)).bind fun parts =>
    (f.files.find? fun file => components file.1 == parts).map (·.2)

end Folder
end Scriptlet.CommandLine
