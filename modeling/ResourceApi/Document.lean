import ResourceApi.Signature

/-!
# Type documents

An ordered list of type definitions and extensions.  A document is built from the type graph and the
operations of each resource, and completed with the definitions of the scalars and shared types that
it refers to.
-/

namespace ResourceApi

inductive DefinitionKind where
  | scalar
  | object
  | interface
  | union
  | enumeration
  | inputObject
deriving DecidableEq, Repr

namespace DefinitionKind

def all : List DefinitionKind := [.scalar, .object, .interface, .union, .enumeration, .inputObject]

def key : DefinitionKind → String
  | .scalar => "scalar"
  | .object => "object"
  | .interface => "interface"
  | .union => "union"
  | .enumeration => "enum"
  | .inputObject => "inputObject"

def ofKey? (key : String) : Option DefinitionKind := all.find? (·.key == key)

end DefinitionKind

structure ArgumentDefinition where
  name : String
  type : String
  default : Option String
deriving DecidableEq, Repr

/-- A field of an object, an interface or an input; only input fields have a default. -/
structure FieldDefinition where
  name : String
  type : String
  arguments : List ArgumentDefinition
  default : Option String
  description : Option String
deriving DecidableEq, Repr

namespace FieldDefinition

def new (name type : String) : FieldDefinition :=
  { name, type, arguments := [], default := none, description := none }

def namedType (field : FieldDefinition) : String := TypeRef.nameOf field.type

end FieldDefinition

/-- A definition or, with `extending`, an extension.  `resource` is the resource it was generated
for; shared definitions have none. -/
structure Definition where
  name : String
  kind : DefinitionKind
  extending : Bool
  description : Option String
  fields : List FieldDefinition
  members : List String
  values : List String
  resource : Option String
deriving DecidableEq, Repr

namespace Definition

def new (name : String) (kind : DefinitionKind) : Definition :=
  { name, kind, extending := false, description := none, fields := [], members := [], values := [],
    resource := none }

def field? (definition : Definition) (name : String) : Option FieldDefinition :=
  definition.fields.find? (·.name == name)

end Definition

abbrev TypeDocument := List Definition

namespace TypeDocument

/-! ## Looking things up -/

/-- The first definition of a name, extensions apart. -/
def get? (document : TypeDocument) (name : String) : Option Definition :=
  document.find? fun definition ↦ definition.name == name && !definition.extending

def allNamed (document : TypeDocument) (name : String) : List Definition :=
  document.filter (·.name == name)

def forResource (document : TypeDocument) (resource : String) : List Definition :=
  document.filter (·.resource == some resource)

/-- The field names of every type, definitions and extensions together. -/
def existingFields (document : TypeDocument) : Entries (List String) :=
  document.foldl (fun existing definition ↦
    let before := (existing.get? definition.name).getD []
    Entries.put definition.name (before ++ definition.fields.map (·.name)) existing) []

/-- The names that are defined, not only extended. -/
def definedTypes (document : TypeDocument) : List String :=
  (document.filter (!·.extending)).map (·.name)

/-- The named types a definition refers to. -/
def referencesOf (definition : Definition) : List String :=
  definition.fields.flatMap (fun field ↦
    field.namedType :: field.arguments.map fun argument ↦ TypeRef.nameOf argument.type) ++
  definition.members

/-- The named types of fields, arguments and union members, each once, in order. -/
def referencedTypes (document : TypeDocument) : List String :=
  addMissing [] (document.flatMap referencesOf)

/-! ## Definitions of a resource -/

def kindOf : TypeKind → DefinitionKind
  | .object => .object
  | .input _ => .inputObject
  | .interface => .interface
  | .union => .union
  | .enumeration => .enumeration

def ofField (field : FieldNode) : FieldDefinition :=
  { FieldDefinition.new field.name field.decorated with description := field.description }

def ofNode (resource : String) (node : TypeNode) : Definition :=
  { Definition.new node.name (kindOf node.kind) with
    extending := node.extending
    fields := node.fields.values.map ofField
    members := node.members
    values := node.values
    resource := some resource }

def ofPage (resource : String) (page : PageType) : Definition :=
  { Definition.new page.name .object with
    fields := [.new "docs" ("[" ++ page.object ++ "!]!"), .new "total" (Scalar.nonNegativeInt ++ "!"),
      .new "page" "Int!", .new "limit" "Int!"]
    resource := some resource }

def ofSignature (signature : Signature) : FieldDefinition :=
  { FieldDefinition.new signature.name signature.returnType with
    arguments := signature.arguments.map fun argument ↦ ⟨argument.name, argument.type, none⟩ }

/-- The extension of a root type by the given operations, if there are any. -/
def rootExtension (resource : String) (kind : OperationKind) (signatures : List Signature) :
    List Definition :=
  if signatures.isEmpty then []
  else [{ Definition.new kind.rootType .object with
    extending := true
    fields := signatures.map ofSignature
    resource := some resource }]

/-- Everything one resource contributes: its types, its page types and its root fields. -/
def ofResource (graph : TypeGraph) (operations : OperationSchema) : TypeDocument :=
  graph.definitions.map (ofNode graph.resource) ++
    operations.pages.map (ofPage graph.resource) ++
    rootExtension graph.resource .query operations.queries ++
    rootExtension graph.resource .mutation operations.mutations

/-! ## Completion -/

/-- Makes the first extension of a name a definition. -/
def promoteFirst (name : String) : TypeDocument → TypeDocument
  | [] => []
  | definition :: rest =>
    if definition.name == name then { definition with extending := false } :: rest
    else definition :: promoteFirst name rest

/-- Makes sure that the root types that are extended are also defined. -/
def promoteRootExtensions (document : TypeDocument) : TypeDocument :=
  [OperationKind.query, .mutation].foldl (fun document kind ↦
    if (get? document kind.rootType).isSome then document
    else promoteFirst kind.rootType document) document

def paginationInput : Definition :=
  { Definition.new paginationInputType .inputObject with
    fields := [.new "page" "Int!", .new "limit" "Int!", .new "sort" Scalar.json] }

def nameAndId : Definition :=
  { Definition.new nameAndIdType .object with
    fields := [.new "id" "ID!", .new "name" "String"] }

/-- The definition of a name that nothing defines, if the name is one that can be completed. -/
def supportFor? (scalars : ScalarRegistry) (name : String) : Option Definition :=
  if name == paginationInputType then some paginationInput
  else if name == nameAndIdType then some nameAndId
  else if Scalar.isBuiltin name || name == Scalar.dateTime || scalars.has name then
    some (.new name .scalar)
  else none

/-- The definitions that the references of a document ask for, scalars first.  Pagination needs the
untyped scalar for its sort document. -/
def supportDefinitions (document : TypeDocument) (scalars : ScalarRegistry) : List Definition :=
  let defined := document.definedTypes
  let missing := document.referencedTypes.filter fun name ↦
    !defined.contains name && !Scalar.isStandard name
  let support := missing.filterMap (supportFor? scalars)
  let hasJson := support.any (·.name == Scalar.json) || defined.contains Scalar.json
  let needsJson := support.any (·.name == paginationInputType)
  let support := if needsJson && !hasJson then support ++ [.new Scalar.json .scalar] else support
  support.filter (·.kind == .scalar) ++ support.filter (·.kind != .scalar)

/-- Adds what the references ask for and defines the root types. -/
def complete (document : TypeDocument) (scalars : ScalarRegistry) : TypeDocument :=
  promoteRootExtensions (document ++ document.supportDefinitions scalars)

end TypeDocument
end ResourceApi
