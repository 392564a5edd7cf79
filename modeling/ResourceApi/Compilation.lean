import ResourceApi.Document.Printer
import ResourceApi.Fragment.Generation
import ResourceApi.Graph.Synthesis
import ResourceApi.OperationDocument
import ResourceApi.Resolver.Table

/-!
# Compilation

Resource models are compiled, under global options and a scalar registry, into a type document, a set
of fragments, operation documents and resolvers.  The definitions of an initial document come first and
are only extended.  References to resources that are not compiled become identifiers.
-/

namespace ResourceApi

structure Compiler where
  options : GenerationConfig
  scalars : ScalarRegistry

/-- The compilation of a single resource. -/
structure CompiledResource where
  graph : TypeGraph
  operations : OperationSchema
  document : TypeDocument
  fragments : FragmentSet
  operationDocuments : List OperationDocument
  resolvers : ResourceResolvers

/-- The compilation of a set of resources. -/
structure CompiledSchema where
  document : TypeDocument
  fragments : FragmentSet
  operationDocuments : List OperationDocument
  resolvers : ResolverTable

/-- A resource with its resolved options and its type graph. -/
structure Stage where
  schema : ResourceSchema
  config : GenerationConfig
  graph : TypeGraph

namespace Stage

def names (stage : Stage) : OperationNames :=
  ⟨stage.schema.resource, stage.schema.pluralName, stage.schema.operationNames⟩

def operations (stage : Stage) : OperationSchema :=
  OperationSchema.ofGraph stage.names stage.config stage.graph

def model (stage : Stage) : ModelHandle := ⟨stage.schema.resource, stage.schema.unique⟩

def resolvers (scalars : ScalarRegistry) (stage : Stage) : ResourceResolvers :=
  ResourceResolvers.ofGraph scalars stage.graph stage.operations stage.model

def document (stage : Stage) : TypeDocument :=
  TypeDocument.ofResource stage.graph stage.operations

/-- The type names that references may lead to. -/
def knownTypes (initial : TypeDocument) (stages : List Stage) : List String :=
  stages.flatMap (fun stage ↦ stage.graph.definitions.map (·.name)) ++ initial.definedTypes

/-- A reference to an unknown type becomes an identifier. -/
def retargetField (known : List String) (field : FieldNode) : FieldNode :=
  if field.kind == .reference && !known.contains field.typeName then field.retarget "ID" .scalar
  else field

def retarget (known : List String) (stage : Stage) : Stage :=
  { stage with graph := stage.graph.mapFields (retargetField known) }

end Stage

namespace Compiler

/-- A compiler under global options, which are resolved against the full configuration. -/
def new (options : Json) (scalars : ScalarRegistry) : Except CompileError Compiler := do
  return ⟨← GenerationConfig.resolve options .full, scalars⟩

/-- Resolves the options of a resource and generates its types. -/
def stage (compiler : Compiler) (initial : TypeDocument) (schema : ResourceSchema) :
    Except CompileError Stage := do
  let config ← GenerationConfig.resolve (schema.node.generate.getD .null) compiler.options
  let graph ← TypeGraph.ofSchema compiler.scalars schema config initial.existingFields
  return { schema, config, graph }

/-- The stages of all resources, with references that lead nowhere retargeted. -/
def stages (compiler : Compiler) (initial : TypeDocument) (schemas : List ResourceSchema) :
    Except CompileError (List Stage) := do
  let stages ← schemas.mapM (compiler.stage initial)
  return stages.map (Stage.retarget (Stage.knownTypes initial stages))

/-- The type document of the stages after an initial document. -/
def document (compiler : Compiler) (initial : TypeDocument) (stages : List Stage) : TypeDocument :=
  TypeDocument.complete (initial ++ stages.flatMap Stage.document) compiler.scalars

/-- Compiles one resource. -/
def compile (compiler : Compiler) (schema : ResourceSchema) (initial : TypeDocument) :
    Except CompileError CompiledResource := do
  if !schema.isNamed then throw (.missingResource 0)
  let stage ← compiler.stage initial schema
  let stage := stage.retarget (Stage.knownTypes initial [stage])
  let operations := stage.operations
  let fragments := FragmentSet.ofGraphs [stage.graph]
  return {
    graph := stage.graph
    operations := operations
    document := compiler.document initial [stage]
    fragments := fragments
    operationDocuments := OperationDocument.ofSignatures fragments operations.signatures
    resolvers := stage.resolvers compiler.scalars }

/-- Checks the names from a position on; `seen` are those before it. -/
def checkNames (index : Nat) (seen : List String) :
    List ResourceSchema → Except CompileError Unit
  | [] => .ok ()
  | schema :: rest =>
    if !schema.isNamed then .error (.missingResource index)
    else if seen.contains schema.resource then .error (.duplicateResource schema.resource)
    else checkNames (index + 1) (schema.resource :: seen) rest

/-- There is a resource, and all have names of their own. -/
def checkSchemas (schemas : List ResourceSchema) : Except CompileError Unit :=
  if schemas.isEmpty then .error .emptySchemaSet else checkNames 0 [] schemas

/-- Compiles resources, in their order, into one schema. -/
def compileAll (compiler : Compiler) (schemas : List ResourceSchema) (initial : TypeDocument) :
    Except CompileError CompiledSchema := do
  checkSchemas schemas
  let stages ← compiler.stages initial schemas
  let fragments := FragmentSet.ofGraphs (stages.map (·.graph))
  return {
    document := compiler.document initial stages
    fragments := fragments
    operationDocuments := stages.flatMap fun stage ↦
      OperationDocument.ofSignatures fragments stage.operations.signatures
    resolvers := stages.foldl (fun table stage ↦
      Entries.put stage.schema.resource (stage.resolvers compiler.scalars) table) [] }

end Compiler

namespace CompiledSchema

/-- The schema definition text. -/
def sdl (compiled : CompiledSchema) : String := compiled.document.render

/-- All operation documents in one text. -/
def operationsText (compiled : CompiledSchema) : String :=
  OperationDocument.renderAll compiled.operationDocuments

end CompiledSchema
end ResourceApi
