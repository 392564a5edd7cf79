import ResourceApi.Graph
import ResourceApi.Options.Generation
import ResourceApi.Scalar

/-!
# Operation signatures

The root fields of a resource: a query for every enabled range, segment and part, a mutation for every
enabled action and target.  An operation is served only if the type graph has the object it returns
and the input it takes.
-/

namespace ResourceApi

/-- The type of queries for names and identifiers. -/
def nameAndIdType : String := "NameAndId"

/-- The type of the pagination argument. -/
def paginationInputType : String := "PaginationInput"

inductive OperationKind where
  | query
  | mutation
deriving DecidableEq, Repr

namespace OperationKind

def rootType : OperationKind → String
  | .query => "Query"
  | .mutation => "Mutation"

def keyword : OperationKind → String
  | .query => "query"
  | .mutation => "mutation"

end OperationKind

inductive Operation where
  | query (range : QueryRange) (segment : Segment) (part : QueryPart)
  | mutation (action : Action) (target : Target)
deriving DecidableEq, Repr

namespace Operation

def kind : Operation → OperationKind
  | .query .. => .query
  | .mutation .. => .mutation

/-- The segment of the object an operation returns: mutations return the caller's own records. -/
def segment : Operation → Segment
  | .query _ segment _ => segment
  | .mutation .. => .own

end Operation

/-- What an operation returns, as far as selections are concerned. -/
inductive ReturnShape where
  | scalar
  | nameAndId
  | page (object : String)
  | object (object : String)
deriving DecidableEq, Repr

structure ArgumentSignature where
  name : String
  type : String
deriving DecidableEq, Repr

/-- A root field.  `name` is the synthesized name unless the resource replaces it. -/
structure Signature where
  name : String
  synthesized : String
  resource : String
  operation : Operation
  arguments : List ArgumentSignature
  returnType : String
  shape : ReturnShape
deriving DecidableEq, Repr

def Signature.kind (signature : Signature) : OperationKind := signature.operation.kind

/-- The wrapper type of one page of results. -/
structure PageType where
  name : String
  resource : String
  object : String
deriving DecidableEq, Repr

def pageTypeName (segment : Segment) (plural : String) : String :=
  segment.label ++ plural ++ "Page"

/-- The names operations of a resource are built from. -/
structure OperationNames where
  resource : String
  plural : String
  renames : Entries String

namespace OperationNames

variable (names : OperationNames)

/-- The name of an operation, before replacements. -/
def synthesized : Operation → String
  | .query range segment part =>
    "get" ++ range.label ++ segment.label ++ names.plural ++ part.label
  | .mutation action .single => action.key ++ names.resource
  | .mutation action .multi => action.key ++ names.plural

def queryArguments : QueryRange → List ArgumentSignature
  | .all => []
  | .filtered => [⟨"filter", Scalar.json⟩]
  | .paginated => [⟨"filter", Scalar.json⟩, ⟨"pagination", paginationInputType ++ "!"⟩]
  | .byId => [⟨"id", "ID!"⟩]

def queryReturn (range : QueryRange) (segment : Segment) (part : QueryPart) :
    String × ReturnShape :=
  let object := objectTypeName segment names.resource
  match range, part with
  | _, .count => (Scalar.nonNegativeInt ++ "!", .scalar)
  | .byId, .nameAndId => (nameAndIdType, .nameAndId)
  | _, .nameAndId => ("[" ++ nameAndIdType ++ "!]!", .nameAndId)
  | .byId, .whole => (object, .object object)
  | .paginated, .whole => (pageTypeName segment names.plural ++ "!", .page object)
  | _, .whole => ("[" ++ object ++ "!]!", .object object)

/-- The argument of a mutation: input data, or identifiers to delete. -/
def mutationArgument (action : Action) (target : Target) : ArgumentSignature :=
  match action.input?, target with
  | some input, .single => ⟨"data", inputTypeName input names.resource ++ "!"⟩
  | some input, .multi => ⟨"data", "[" ++ inputTypeName input names.resource ++ "!]!"⟩
  | none, .single => ⟨"id", "ID!"⟩
  | none, .multi => ⟨"ids", "[ID!]!"⟩

def mutationReturn (target : Target) : String :=
  let object := objectTypeName .own names.resource
  match target with
  | .single => object
  | .multi => "[" ++ object ++ "]!"

def signature (operation : Operation) : Signature :=
  let synthesized := names.synthesized operation
  let (arguments, returnType, shape) := match operation with
    | .query range segment part =>
      let (returnType, shape) := names.queryReturn range segment part
      (queryArguments range, returnType, shape)
    | .mutation action target =>
      ([names.mutationArgument action target], names.mutationReturn target,
        .object (objectTypeName .own names.resource))
  { name := (names.renames.get? synthesized).getD synthesized
    synthesized, resource := names.resource, operation, arguments, returnType, shape }

end OperationNames

/-- Every query a resource can have, in generation order. -/
def Operation.queries : List Operation :=
  QueryRange.every.flatMap fun range ↦ Segment.all.flatMap fun segment ↦
    range.parts.map fun part ↦ .query range segment part

/-- Every mutation a resource can have, in generation order. -/
def Operation.mutations : List Operation :=
  Action.all.flatMap fun action ↦ Target.all.map fun target ↦ .mutation action target

namespace Operation

def leaf : Operation → Leaf
  | .query range segment part => .query range segment part
  | .mutation action target => .mutation action target

/-- The input type an operation needs. -/
def inputType? (resource : String) : Operation → Option String
  | .query .. => none
  | .mutation action _ => action.input?.map fun input ↦ inputTypeName input resource

/-- The graph has the types an operation needs. -/
def isServed (resource : String) (graph : TypeGraph) (operation : Operation) : Bool :=
  graph.has (objectTypeName operation.segment resource) &&
    match operation.inputType? resource with
    | some input => graph.has input
    | none => true

end Operation

/-- The operations of one resource and the page types they return. -/
structure OperationSchema where
  queries : List Signature
  mutations : List Signature
  pages : List PageType
deriving DecidableEq

namespace OperationSchema

/-- Queries, then mutations. -/
def signatures (schema : OperationSchema) : List Signature := schema.queries ++ schema.mutations

/-- The signatures of the enabled operations among the given ones. -/
def enabled (names : OperationNames) (config : GenerationConfig) (operations : List Operation) :
    List Signature :=
  (operations.filter fun operation ↦ config.enabled operation.leaf).map names.signature

/-- A page type for every segment whose pages are served whole. -/
def pagesOf (names : OperationNames) (queries : List Signature) : List PageType :=
  (Segment.all.filter fun segment ↦
      queries.any (·.operation == .query .paginated segment .whole)).map fun segment ↦
    ⟨pageTypeName segment names.plural, names.resource, objectTypeName segment names.resource⟩

/-- The enabled operations that the graph can serve. -/
def ofGraph (names : OperationNames) (config : GenerationConfig) (graph : TypeGraph) :
    OperationSchema :=
  let served := fun (signature : Signature) ↦ signature.operation.isServed names.resource graph
  let queries := (enabled names config Operation.queries).filter served
  let mutations := (enabled names config Operation.mutations).filter served
  { queries, mutations, pages := pagesOf names queries }

end OperationSchema
end ResourceApi
