/-!
# File paths

Paths are texts whose parts are separated by slashes.  Empty parts and single dots do not count, and
two dots lead back up.
-/

namespace ResourceApi.FilePath

/-- Cuts at every slash; `part` holds the current part, last character first. -/
def cutSlashes (part : List Char) : List Char → List (List Char)
  | [] => [part.reverse]
  | c :: rest =>
    if c == '/' then part.reverse :: cutSlashes [] rest else cutSlashes (c :: part) rest

/-- The parts that count. -/
def parts (path : String) : List String :=
  ((cutSlashes [] path.toList).map String.ofList).filter fun part ↦ part != "" && part != "."

/-- The parts with the ways back up taken; those out of the directory are kept. -/
def resolved (path : String) : List String :=
  ((parts path).foldl (fun (back : List String) part ↦
    match back with
    | last :: before => if part == ".." && last != ".." then before else part :: back
    | [] => [part]) []).reverse

def isAbsolute (path : String) : Bool := path.toList.head? == some '/'

/-- The name of the file at a path. -/
def fileName? (path : String) : Option String := (parts path).getLast?.filter (· != "..")

/-- What follows the last dot of the file name; a dot in front of the name does not count. -/
def extension? (path : String) : Option String := do
  let back := (← fileName? path).toList.reverse
  let after := back.takeWhile (· != '.')
  let before := (back.dropWhile (· != '.')).drop 1
  if before.isEmpty then failure
  return String.ofList after.reverse

/-- Drops slashes and single dots at the end of a path, which is written backwards. -/
def dropEnd : List Char → List Char
  | '/' :: rest => dropEnd rest
  | '.' :: '/' :: rest => dropEnd rest
  | back => back

/-- The path of the directory that holds a file. -/
def parent (path : String) : String :=
  let back := dropEnd path.toList.reverse
  let up := dropEnd (back.dropWhile (· != '/'))
  if up.isEmpty && isAbsolute path then "/" else String.ofList up.reverse

/-- A path seen from a directory. -/
def join (directory path : String) : String :=
  if isAbsolute path || directory.isEmpty then path
  else if directory.toList.getLast? == some '/' then directory ++ path
  else directory ++ "/" ++ path

end ResourceApi.FilePath
