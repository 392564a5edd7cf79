import ResourceApi.CommandLine
import ResourceApi.Document.Encode
import ResourceApi.Document.Reader
import ResourceApi.Executable.Mount
import ResourceApi.Files
import ResourceApi.Project.Reader
import ResourceApi.Request.Reader

/-!
# Running commands

A command reads the project, compiles it, and prints or writes what was asked for.  The first failure
ends it; what was printed and written before stays.  Arguments that are no call end with code 2, a
failure with code 1, and a crash with code 101.
-/

namespace ResourceApi.CommandLine

/-- What was printed: results, and messages about the run. -/
structure Console where
  output : String
  messages : String

/-- A finished run. -/
structure Outcome where
  exitCode : Nat
  console : Console

/-- Why a run ends before it is done, with the text that it leaves. -/
inductive Stop where
  | failure (text : String)
  | crash (text : String)

/-- A run prints as it goes and may stop. -/
abbrev Run (m : Type → Type) := ExceptT Stop (StateT Console m)

variable {m : Type → Type} [Monad m]

namespace Run

def print (text : String) : Run m Unit :=
  modify fun console ↦ { console with output := console.output ++ text ++ "\n" }

def report (text : String) : Run m Unit :=
  modify fun console ↦ { console with messages := console.messages ++ text ++ "\n" }

def success (text : String) : Run m Unit := report ("✓ " ++ text)

def fail (text : String) : Run m α := throw (.failure text)

def ofCompile (result : Except CompileError α) : Run m α :=
  match result with
  | .ok value => pure value
  | .error error => throw (if error.isCrash then .crash error.message else .failure error.message)

/-- A file fault after what was tried. -/
def ofFile (attempt path : String) (action : m (Except FileFault α)) : Run m α := do
  match ← (liftM action : StateT Console m (Except FileFault α)) with
  | .ok value => return value
  | .error fault => fail (attempt ++ " " ++ path ++ ": " ++ fault.message)

end Run

open Run

/-- A project that was read, with the directory its paths are seen from and its initial types. -/
structure LoadedProject where
  project : Project
  root : String
  initial : TypeDocument

namespace LoadedProject

def readProject (files : FileAccess m) (path : String) : Run m Project := do
  let text ← ofFile "Failed to read project file" path (files.read path)
  match Project.ofText path text with
  | .ok project => return project
  | .error error => fail ("Failed to parse project file " ++ path ++ ": " ++ error.message)

def readInitial (files : FileAccess m) (root : String) (project : Project) :
    Run m TypeDocument := do
  match project.initialTypes with
  | none => return []
  | some file =>
    let path := FilePath.join root file
    let text ← ofFile "Failed to read initial types" path (files.read path)
    ofCompile (TypeDocument.parse text)

def load (files : FileAccess m) (path : String) : Run m LoadedProject := do
  let project ← readProject files path
  ofCompile project.check
  let root := FilePath.parent path
  return { project, root, initial := ← readInitial files root project }

def compile (loaded : LoadedProject) : Except CompileError (Compiler × CompiledSchema) := do
  let compiler ← loaded.project.compiler
  return (compiler, ← compiler.compileAll loaded.project.schemas loaded.initial)

end LoadedProject

/-! ## Commands -/

def typesText (compiled : CompiledSchema) : OutputFormat → String
  | .sdl => compiled.sdl
  | .json => compiled.document.encode.pretty

def operationsText (compiled : CompiledSchema) : OutputFormat → String
  | .sdl => compiled.operationsText
  | .json => (Json.arr (compiled.operationDocuments.map OperationDocument.encode)).pretty

/-- Writes an artifact to its file, or prints it. -/
def emit (files : FileAccess m) (root : String) (file : Option String) (title text : String) :
    Run m Unit := do
  match file with
  | none => print text
  | some file =>
    let path := FilePath.join root file
    let directory := FilePath.parent path
    if !directory.isEmpty then
      ofFile "Failed to create" directory (files.createDirectory directory)
    ofFile "Failed to write" path (files.write path text)
    success (title ++ " written to " ++ path)

def compileOutputs (files : FileAccess m) (loaded : LoadedProject) (compiled : CompiledSchema) :
    Run m Unit := do
  let output := loaded.project.output
  emit files loaded.root output.typesFile "Type document" (typesText compiled output.format)
  emit files loaded.root output.operationsFile "Operation documents"
    (operationsText compiled output.format)

def printOperations (compiled : CompiledSchema) (resource : Option String) (fragments : Bool) :
    Run m Unit := do
  if fragments then print compiled.fragments.render
  else
    if let some name := resource then
      if !compiled.resolvers.has name then fail ("Unknown resource: " ++ name)
    print (OperationDocument.renderAll (compiled.operationDocuments.filter fun document ↦
      resource.all (· == document.resource)))

/-- The number of root fields of each resource, and the fields that are resolved by type. -/
def printResolvers (compiled : CompiledSchema) : Run m Unit :=
  compiled.resolvers.forM fun (resource, resolvers) ↦ do
    print resource
    print ("  Query: " ++ toString resolvers.query.length)
    print ("  Mutation: " ++ toString resolvers.mutation.length)
    resolvers.types.forM fun (typeName, fields) ↦
      print ("  " ++ typeName ++ ": " ++ ", ".intercalate fields.keys)

/-- Every document can be read back, and the schema can be served. -/
def checkArtifacts (compiler : Compiler) (compiled : CompiledSchema) : Except CompileError Unit := do
  let readable := (TypeDocument.countDefinitions? compiled.sdl).isSome &&
    compiled.operationDocuments.all fun document ↦ (Request.parse? document.source).isSome
  if !readable then throw (.invalidDocument .unreadable)
  let _ ← ExecutableSchema.mount compiled.document compiled.resolvers compiler.scalars

def summary (compiled : CompiledSchema) : String :=
  toString compiled.resolvers.length ++ " resources, " ++
    toString compiled.document.length ++ " definitions, " ++
    toString compiled.operationDocuments.length ++ " operations, " ++
    toString compiled.fragments.definitions.length ++ " fragments"

def perform (files : FileAccess m) (invocation : Invocation) : Run m Unit := do
  let loaded ← LoadedProject.load files invocation.config
  let (compiler, compiled) ← ofCompile loaded.compile
  match invocation.command with
  | .compile => compileOutputs files loaded compiled
  | .sdl => print compiled.sdl
  | .operations resource fragments => printOperations compiled resource fragments
  | .resolvers => printResolvers compiled
  | .check =>
    ofCompile (checkArtifacts compiler compiled)
    success (summary compiled)

/-- How the arguments of a call are written. -/
def usage : String :=
  "Usage: [-c FILE] [--log-level LEVEL] " ++
    "compile | sdl | operations [-r RESOURCE] [--fragments] | resolvers | check"

/-- Runs a call. -/
def run (files : FileAccess m) (arguments : List String) : m Outcome := do
  match Invocation.ofArguments? arguments with
  | none => return ⟨2, ⟨"", usage ++ "\n"⟩⟩
  | some invocation =>
    let (result, console) ← ((perform files invocation).run).run ⟨"", ""⟩
    match result with
    | .ok () => return ⟨0, console⟩
    | .error (.failure text) =>
      return ⟨1, { console with messages := console.messages ++ "✗ " ++ text ++ "\n" }⟩
    | .error (.crash text) =>
      return ⟨101, { console with messages := console.messages ++ text ++ "\n" }⟩

end ResourceApi.CommandLine
