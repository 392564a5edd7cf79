import ResourceApi.Compilation
import ResourceApi.FilePath
import ResourceApi.Model.Encode
import ResourceApi.Scalar.Patterns

/-!
# Projects

A project holds the global generation options, the output settings, the scalars it adds and the
resources to compile.
-/

namespace ResourceApi

/-- How generated artifacts are written: as text of the schema language, or as JSON listings. -/
inductive OutputFormat where
  | sdl
  | json
deriving DecidableEq, Repr

namespace OutputFormat

def all : List OutputFormat := [.sdl, .json]

def key : OutputFormat → String
  | .sdl => "sdl"
  | .json => "json"

def ofKey? (key : String) : Option OutputFormat := all.find? (·.key == key)

/-- The file extensions of a format. -/
def extensions : OutputFormat → List String
  | .sdl => ["graphql", "gql"]
  | .json => ["json"]

end OutputFormat

/-- Where generated artifacts go; those without a file are printed. -/
structure OutputSettings where
  typesFile : Option String
  operationsFile : Option String
  format : OutputFormat
deriving DecidableEq, Repr

namespace OutputSettings

def default : OutputSettings := ⟨none, none, .sdl⟩

/-- The extension of a file belongs to another format. -/
def conflicts (settings : OutputSettings) (file : String) : Bool :=
  match FilePath.extension? file with
  | none => false
  | some extension =>
    let extension := extension.toLower
    OutputFormat.all.any (·.extensions.contains extension) &&
      !settings.format.extensions.contains extension

/-- No file has an extension of another format. -/
def check (settings : OutputSettings) : Except CompileError Unit :=
  match (settings.typesFile.toList ++ settings.operationsFile.toList).find? settings.conflicts with
  | some file => .error (.conflictingExtension file settings.format.key)
  | none => .ok ()

def encode (settings : OutputSettings) : Json :=
  .obj [("types_file", Json.ofOption .str settings.typesFile),
    ("operations_file", Json.ofOption .str settings.operationsFile),
    ("format", .str settings.format.key)]

end OutputSettings

/-- `initialTypes` is a file of definitions that precede the generated ones; `scalars` are the
patterns of added scalars. -/
structure Project where
  generate : Json
  output : OutputSettings
  initialTypes : Option String
  scalars : Entries String
  schemas : List ResourceSchema

namespace Project

/-- Every resource is named. -/
def checkNamed (index : Nat) : List ResourceSchema → Except CompileError Unit
  | [] => .ok ()
  | schema :: rest =>
    if schema.isNamed then checkNamed (index + 1) rest else .error (.missingResource index)

/-- The first fault that shows before anything is compiled. -/
def check (project : Project) : Except CompileError Unit := do
  if project.schemas.isEmpty then throw .emptySchemaSet
  checkNamed 0 project.schemas
  match project.generate with
  | .null | .bool _ | .obj _ => project.output.check
  | _ => throw (.invalidConfig .generateNotTableOrBoolean)

def scalarRegistry (project : Project) : Except CompileError ScalarRegistry :=
  ScalarRegistry.default.registerPatterns project.scalars

def compiler (project : Project) : Except CompileError Compiler := do
  let scalars ← project.scalarRegistry
  Compiler.new project.generate scalars

def encode (project : Project) : Json :=
  .obj [("generate", project.generate), ("output", project.output.encode),
    ("initial_types", Json.ofOption .str project.initialTypes),
    ("scalars", .obj (project.scalars.map fun (name, pattern) ↦ (name, .str pattern))),
    ("schemas", .arr (project.schemas.map Model.encode))]

end Project
end ResourceApi
