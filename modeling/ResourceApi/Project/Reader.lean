import ResourceApi.Json.Reader
import ResourceApi.Model.Decode
import ResourceApi.Project
import ResourceApi.Toml.Reader

/-!
# Reading project files

A project file is JSON if its name says so, and TOML otherwise.  Every member may be missing; the
project and its output settings may also be given by position.
-/

namespace ResourceApi.Project

open Model

def memberNames : List String := ["generate", "output", "initial_types", "scalars", "schemas"]

def outputNames : List String := ["types_file", "operations_file", "format"]

/-- The members of a value that is a table or a list by position. -/
def membersOf (known : List String) : Json → Option (Entries Json)
  | .obj members => if isPlain known members then some members else none
  | .arr items => positional known items
  | _ => none

/-- A format is named, or is the only member of a table and null. -/
def readFormat : Json → Option OutputFormat
  | .str key | .obj [(key, .null)] => OutputFormat.ofKey? key
  | _ => none

def readOutput (value : Json) : Option OutputSettings := do
  let members ← membersOf outputNames value
  let file := fun name ↦ optional Json.str? (members.get? name)
  return {
    typesFile := ← file "types_file"
    operationsFile := ← file "operations_file"
    format := ← defaulted .sdl readFormat (members.get? "format") }

def readSchemas (value : Json) : Option (List ResourceSchema) :=
  value.items?.bind fun items ↦ items.mapM decode?

def decode? (value : Json) : Option Project := do
  let members ← membersOf memberNames value
  return {
    generate := ((members.get? "generate").getD .null).distinct
    output := ← defaulted .default readOutput (members.get? "output")
    initialTypes := ← optional Json.str? (members.get? "initial_types")
    scalars := ← defaulted [] (readEntries Json.str?) (members.get? "scalars")
    schemas := ← defaulted [] readSchemas (members.get? "schemas") }

/-- The file at a path holds JSON. -/
def isJsonFile (path : String) : Bool :=
  (FilePath.extension? path).any fun extension ↦ extension.toLower == "json"

/-- The project that the text of a file denotes. -/
def ofText (path text : String) : Except CompileError Project :=
  let value := if isJsonFile path then Json.spelled? text else Toml.parse? text
  match value.bind decode? with
  | some project => .ok project
  | none => .error (.invalidConfig .unreadableProject)

end ResourceApi.Project
