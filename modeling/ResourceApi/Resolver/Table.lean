import ResourceApi.Resolver.Mutation
import ResourceApi.Resolver.Query
import ResourceApi.Resolver.Reference
import ResourceApi.Signature

/-!
# Resolver tables

The resolvers of a resource follow from its type graph and its operations: one for every root field,
and one for every field of an object type that is a reference, an object or an enum.  The table of a
schema holds the resolvers of each resource; a root field is looked up across all of them.
-/

namespace ResourceApi

/-- The resolvers of one resource, by field and by type and field. -/
structure ResourceResolvers where
  query : Entries QueryResolver
  mutation : Entries MutationResolver
  types : Entries (Entries FieldResolver)

namespace ResourceResolvers

def size (resolvers : ResourceResolvers) : Nat :=
  resolvers.query.length + resolvers.mutation.length +
    (resolvers.types.flatMap (·.2)).length

/-! ## Queries -/

/-- The field names of the root object of a segment. -/
def rootFields (graph : TypeGraph) (segment : Segment) : List String :=
  match graph.root? segment with
  | some object => object.fields.keys
  | none => []

/-- The field that names a record: the text field called `name`, or else the first text field. -/
def labelField? (graph : TypeGraph) (segment : Segment) : Option String := do
  let object ← graph.root? segment
  let named := (object.fields.get? QueryResolver.nameField).filter FieldNode.isText
  let field ← named.orElse fun _ ↦ object.fields.values.find? FieldNode.isText
  return field.name

def queryResolver (graph : TypeGraph) (range : QueryRange) (segment : Segment)
    (part : QueryPart) : QueryResolver :=
  { resource := graph.resource, range, segment, part
    projection := rootFields graph segment, label := labelField? graph segment }

/-! ## Mutations -/

/-- The checks on the fields of an input type and of the inputs it holds, with the path to each.  The
walk follows object fields by type name; `fuel` bounds its depth. -/
def inputChecks (scalars : ScalarRegistry) (graph : TypeGraph) :
    Nat → String → List String → List ScalarCheck
  | 0, _, _ => []
  | fuel + 1, input, path =>
    match (graph.get? input).filter TypeNode.isInput with
    | none => []
    | some node => node.fields.values.flatMap fun field ↦
      let path := path ++ [field.name]
      match field.kind with
      | .scalar =>
        if !Scalar.isBuiltin field.typeName && scalars.has field.typeName then
          [⟨path, field.typeName⟩]
        else []
      | .object => inputChecks scalars graph fuel field.typeName path
      | _ => []

/-- The checks of the root input of an action.  No path of a graph without recursive inputs has more
steps than the graph has types. -/
def scalarChecks (scalars : ScalarRegistry) (graph : TypeGraph) (action : InputAction) :
    List ScalarCheck :=
  inputChecks scalars graph (graph.size + 1) (inputTypeName action graph.resource) []

def mutationResolver (scalars : ScalarRegistry) (graph : TypeGraph) (model : ModelHandle)
    (action : Action) (target : Target) : MutationResolver :=
  { model, action, target, scalars
    checks := match action.input? with
      | some input => scalarChecks scalars graph input
      | none => [] }

/-! ## Fields -/

def fieldResolver? (field : FieldNode) : Option FieldResolver :=
  match field.kind, field.target with
  | .reference, some (segment, resource) => some (.reference resource segment)
  | .object, _ | .enumeration, _ => some .projection
  | _, _ => none

def fieldResolvers (object : TypeNode) : Entries FieldResolver :=
  object.fields.values.filterMap fun field ↦
    (fieldResolver? field).map fun resolver ↦ (field.name, resolver)

/-- The resolvers of the fields of every object type that has any; a deeper type replaces one of the
same name. -/
def typeResolvers (graph : TypeGraph) : Entries (Entries FieldResolver) :=
  graph.objects.foldl (fun types (_, object) ↦
    let fields := fieldResolvers object
    if fields.isEmpty then types else Entries.put object.name fields types) []

/-! ## Resources -/

/-- Adds the resolver of a root field. -/
def addSignature (scalars : ScalarRegistry) (graph : TypeGraph) (model : ModelHandle)
    (resolvers : ResourceResolvers) (signature : Signature) : ResourceResolvers :=
  match signature.operation with
  | .query range segment part =>
    let resolver := queryResolver graph range segment part
    { resolvers with query := Entries.put signature.name resolver resolvers.query }
  | .mutation action target =>
    let resolver := mutationResolver scalars graph model action target
    { resolvers with mutation := Entries.put signature.name resolver resolvers.mutation }

def ofGraph (scalars : ScalarRegistry) (graph : TypeGraph) (operations : OperationSchema)
    (model : ModelHandle) : ResourceResolvers :=
  operations.signatures.foldl (addSignature scalars graph model)
    { query := [], mutation := [], types := typeResolvers graph }

end ResourceResolvers

/-- The resolvers of each resource. -/
abbrev ResolverTable := Entries ResourceResolvers

namespace ResolverTable

/-- The resolver of a query field: that of the first resource that has one. -/
def query? (table : ResolverTable) (field : String) : Option QueryResolver :=
  table.findSome? fun (_, resolvers) ↦ resolvers.query.get? field

def mutation? (table : ResolverTable) (field : String) : Option MutationResolver :=
  table.findSome? fun (_, resolvers) ↦ resolvers.mutation.get? field

def field? (table : ResolverTable) (typeName field : String) : Option FieldResolver :=
  table.findSome? fun (_, resolvers) ↦
    (resolvers.types.get? typeName).bind fun fields ↦ fields.get? field

end ResolverTable
end ResourceApi
