import ResourceApi.Json.Printer

/-!
# Compilation errors

What can be wrong with a project, one constructor per cause.  `message` is the text a user sees.
-/

namespace ResourceApi

/-- What is wrong with a configuration value. -/
inductive ConfigFault where
  | optionNotBoolean (path : String) (value : Json)
  | generationNotTable (value : Json)
  | generateNotTableOrBoolean
  | fieldOptionsNotTable (value : Json)
  | nullableNotListOrTable (path : String) (value : Json)
  | nullableNotBooleans (path : String)
  | authMapperNotTable (value : Json)
  | authMapperNoSegments (key : String) (value : Json)
  | invalidPattern (scalar : String)
  | unreadableProject

def ConfigFault.message : ConfigFault → String
  | .optionNotBoolean path value => s!"option {path} must be a boolean, got {value.compact}"
  | .generationNotTable value => s!"generation options must be a table, got {value.compact}"
  | .generateNotTableOrBoolean => "generate must be a table or a boolean"
  | .fieldOptionsNotTable value => s!"field options must be a table, got {value.compact}"
  | .nullableNotListOrTable path value => s!"{path} must be a list or a table, got {value.compact}"
  | .nullableNotBooleans path => s!"{path} must be a list of booleans"
  | .authMapperNotTable value => s!"authMapper must be a table, got {value.compact}"
  | .authMapperNoSegments key value =>
    s!"authMapper entry {key} = {value.compact} does not name auth segments"
  | .invalidPattern scalar => s!"scalar {scalar}: invalid pattern: "
  | .unreadableProject => ""

/-- Why a declaration has no kind. -/
inductive DeclarationFault where
  | listElements (count : Nat)
  | emptyEnum
  | emptyReference
  | untyped

def DeclarationFault.message : DeclarationFault → String
  | .listElements count => s!"list declarations need exactly one element, found {count}"
  | .emptyEnum => "enum has no values"
  | .emptyReference => "empty reference"
  | .untyped => "declaration has no type, enum, ref, scalar or schema"

/-- What is wrong with a type document. -/
inductive DocumentFault where
  | unreadable
  | invalidTypeReference (text : String)

def DocumentFault.message : DocumentFault → String
  | .unreadable => ""
  | .invalidTypeReference text => s!"invalid type reference {text}"

/-- What stops a compilation.  A field that is registered twice stops it at once: the builder of executable
schemas gives up on it. -/
inductive CompileError where
  | emptySchemaSet
  | missingResource (index : Nat)
  | duplicateResource (resource : String)
  | conflictingExtension (path format : String)
  | invalidConfig (fault : ConfigFault)
  | unclassifiableField (typeName field : String) (fault : DeclarationFault)
  | unknownScalar (typeName field scalar : String)
  | invalidDocument (fault : DocumentFault)
  | schemaBuildFailed
  | repeatedField (name : String)

namespace CompileError

def message : CompileError → String
  | .emptySchemaSet => "No schemas to compile"
  | .missingResource index => s!"Schema #{index} is missing its resource name"
  | .duplicateResource resource => s!"Resource {resource} is declared more than once"
  | .conflictingExtension path format =>
    s!"Output file {path} does not match output format {format}"
  | .invalidConfig fault => "Invalid configuration: " ++ fault.message
  | .unclassifiableField typeName field fault =>
    s!"Cannot classify field {typeName}.{field}: {fault.message}"
  | .unknownScalar typeName field scalar => s!"Unknown scalar {scalar} on field {typeName}.{field}"
  | .invalidDocument fault => "Invalid document: " ++ fault.message
  | .schemaBuildFailed => "Failed to build executable schema: "
  | .repeatedField name => s!"Field `{name}` already exists"

/-- The error was found before any type was generated. -/
def isConfiguration : CompileError → Bool
  | .emptySchemaSet | .missingResource _ | .duplicateResource _ | .conflictingExtension _ _
  | .invalidConfig _ => true
  | _ => false

/-- Nothing reports the error: the run breaks off. -/
def isCrash : CompileError → Bool
  | .repeatedField _ => true
  | _ => false

end CompileError
end ResourceApi
