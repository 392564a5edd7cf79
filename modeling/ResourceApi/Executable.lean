import ResourceApi.Literal
import ResourceApi.Resolver.Table
import ResourceApi.TypeRef

/-!
# Executable schemas

What requests are checked and run against: the types of a document by name, with a source of values
for every field.  Interfaces have no place here, because no object implements one.
-/

namespace ResourceApi

/-- Where the value of a field comes from: a resolver of the root types, the records that the parent
refers to, or a member of the parent.  A root type without any field holds a vacant one. -/
inductive FieldSource where
  | query (resolver : QueryResolver)
  | mutation (resolver : MutationResolver)
  | reference (resolver : FieldResolver)
  | member
  | vacant

structure ExecutableField where
  type : TypeRef
  arguments : Entries TypeRef
  source : FieldSource

/-- The meaning of a type name.  The rule of a scalar holds of what is written under it and of what
is returned under it; the standard scalars restrict only what is written. -/
inductive TypeShape where
  | standard
  | scalar (rule : ScalarRule)
  | enumeration (values : List String)
  | union (members : List String)
  | input (fields : Entries TypeRef)
  | object (fields : Entries ExecutableField)

namespace TypeShape

/-- Values of the type can be returned. -/
def isOutput : TypeShape → Bool
  | .input _ => false
  | _ => true

/-- Values of the type can be passed as arguments. -/
def isInput : TypeShape → Bool
  | .union _ | .object _ => false
  | _ => true

/-- Values of the type are selected without a selection of their own. -/
def isLeaf : TypeShape → Bool
  | .standard | .scalar _ | .enumeration _ => true
  | _ => false

/-- The type can be the condition of a fragment. -/
def isComposite : TypeShape → Bool
  | .object _ | .union _ => true
  | _ => false

def isObject : TypeShape → Bool
  | .object _ => true
  | _ => false

def inputFields : TypeShape → Entries TypeRef
  | .input fields => fields
  | _ => []

def fields : TypeShape → Entries ExecutableField
  | .object fields => fields
  | _ => []

end TypeShape

/-- Types by name.  Mutations are served only if there is a mutation root. -/
structure ExecutableSchema where
  types : Entries TypeShape
  hasMutation : Bool

namespace ExecutableSchema

def queryRoot : String := OperationKind.query.rootType

def mutationRoot : String := OperationKind.mutation.rootType

def type? (schema : ExecutableSchema) (name : String) : Option TypeShape := schema.types.get? name

/-- The type exists and has a property. -/
def typeIs (schema : ExecutableSchema) (name : String) (holds : TypeShape → Bool) : Bool :=
  (schema.type? name).any holds

def field? (schema : ExecutableSchema) (typeName field : String) : Option ExecutableField :=
  (schema.type? typeName).bind fun shape ↦ shape.fields.get? field

/-- The object types that a value of a composite type can have. -/
def possibleTypes (schema : ExecutableSchema) (name : String) : List String :=
  match schema.type? name with
  | some (.union members) => members
  | some (.object _) => [name]
  | _ => []

/-- A value of one type can be a value of the other. -/
def overlap (schema : ExecutableSchema) (left right : String) : Bool :=
  left == right || (schema.possibleTypes left).any (schema.possibleTypes right).contains

end ExecutableSchema
end ResourceApi
