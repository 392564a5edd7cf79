import ResourceApi.Document.Merge
import ResourceApi.Executable

/-!
# Mounting a type document

A merged type document and a resolver table become an executable schema.  Root fields without a
resolver are left out.  No type may get two fields of one name: the builder breaks off there.  The
result has to be sound: every type that is referred to exists and stands where its kind may stand, and
input types can be written without end in no way.
-/

namespace ResourceApi.ExecutableSchema

/-! ## Types of a document -/

/-- The reference that a text is taken apart for, put together again around its named type. -/
def typeRef (text : String) : Except CompileError TypeRef :=
  match TypeRef.parse? text with
  | some ref => .ok (TypeRef.ofLevels ref.name ref.vector)
  | none => .error (.invalidDocument (.invalidTypeReference text))

/-- Counts are natural numbers that fit 64 bits. -/
def isCount (value : Json) : Bool := value.unsigned?.isSome

/-- The rule of a scalar that a document defines; null passes as an item of a list. -/
def scalarRule (scalars : ScalarRegistry) (name : String) : ScalarRule :=
  if name == Scalar.nonNegativeInt then fun value ↦ value.isNull || isCount value
  else scalars.accepts name

def inputField (field : FieldDefinition) : Except CompileError (String × TypeRef) := do
  return (field.name, ← typeRef field.type)

def argument (argument : ArgumentDefinition) : Except CompileError (String × TypeRef) := do
  return (argument.name, ← typeRef argument.type)

def field (source : FieldSource) (definition : FieldDefinition) :
    Except CompileError (String × ExecutableField) := do
  let type ← typeRef definition.type
  let arguments ← definition.arguments.mapM argument
  return (definition.name, { type, arguments, source })

/-- Reads fields one after another into those of a type.  One whose name is taken stops the builder. -/
def addFields {α β : Type} (read : α → Except CompileError (String × β)) (built : Entries β) :
    List α → Except CompileError (Entries β)
  | [] => .ok built
  | definition :: rest => do
    let entry ← read definition
    if built.has entry.1 then throw (.repeatedField entry.1)
    addFields read (built ++ [entry]) rest

/-- The source of a field of an ordinary object. -/
def memberSource (resolvers : ResolverTable) (typeName field : String) : FieldSource :=
  match resolvers.field? typeName field with
  | some (.reference resource segment) => .reference (.reference resource segment)
  | _ => .member

def rootSource? (resolvers : ResolverTable) (kind : OperationKind) (field : String) :
    Option FieldSource :=
  match kind with
  | .query => (resolvers.query? field).map .query
  | .mutation => (resolvers.mutation? field).map .mutation

/-- The field of a root type that has nothing to serve. -/
def vacantField : String × ExecutableField :=
  ("_empty", { type := .named "Boolean" true, arguments := [], source := .vacant })

def rootShape (resolvers : ResolverTable) (kind : OperationKind) (fields : List FieldDefinition) :
    Except CompileError TypeShape := do
  let served := fields.filterMap fun definition ↦
    (rootSource? resolvers kind definition.name).map fun source ↦ (source, definition)
  if served.isEmpty then return .object [vacantField]
  return .object (← addFields (fun (source, definition) ↦ field source definition) [] served)

def objectShape (resolvers : ResolverTable) (definition : Definition) :
    Except CompileError TypeShape := do
  return .object (← addFields (fun f ↦ field (memberSource resolvers definition.name f.name) f) []
    definition.fields)

/-- The shape of a definition, if it has a place in an executable schema. -/
def shapeOf (resolvers : ResolverTable) (scalars : ScalarRegistry) (hasMutation : Bool)
    (definition : Definition) : Except CompileError (Option TypeShape) := do
  match definition.kind with
  | .scalar => return some (.scalar (scalarRule scalars definition.name))
  | .enumeration => return some (.enumeration definition.values)
  | .union => return some (.union definition.members)
  | .interface => return none
  | .inputObject => return some (.input (← addFields inputField [] definition.fields))
  | .object =>
    if definition.name == queryRoot then
      return some (← rootShape resolvers .query definition.fields)
    else if definition.name == mutationRoot then
      if hasMutation then return some (← rootShape resolvers .mutation definition.fields)
      else return none
    else return some (← objectShape resolvers definition)

/-- The types of merged definitions, in order. -/
def typesOf (resolvers : ResolverTable) (scalars : ScalarRegistry) (hasMutation : Bool) :
    List Definition → Except CompileError (Entries TypeShape)
  | [] => .ok []
  | definition :: rest => do
    let shape ← shapeOf resolvers scalars hasMutation definition
    let types ← typesOf resolvers scalars hasMutation rest
    return (shape.map fun shape ↦ (definition.name, shape)).toList ++ types

/-! ## Soundness -/

/-- Names that start with two underscores belong to the schema language. -/
def isReserved (name : String) : Bool := ['_', '_'].isPrefixOf name.toList

/-- The named type of a place exists and has a property. -/
def placed (schema : ExecutableSchema) (holds : TypeShape → Bool) (type : TypeRef) : Bool :=
  schema.typeIs type.name holds

def isSoundInput (schema : ExecutableSchema) (input : String × TypeRef) : Bool :=
  !isReserved input.1 && schema.placed TypeShape.isInput input.2

def isSoundField (schema : ExecutableSchema) (field : String × ExecutableField) : Bool :=
  !isReserved field.1 && schema.placed TypeShape.isOutput field.2.type &&
    field.2.arguments.all schema.isSoundInput

def isSoundShape (schema : ExecutableSchema) : TypeShape → Bool
  | .object fields => !fields.isEmpty && fields.all schema.isSoundField
  | .input fields => fields.all schema.isSoundInput
  | .union members => members.all fun member ↦ schema.typeIs member TypeShape.isObject
  | _ => true

/-- The inputs that an input cannot be written without. -/
def required (schema : ExecutableSchema) (name : String) : List String :=
  ((schema.type? name).map TypeShape.inputFields).getD [] |>.filterMap fun (_, type) ↦
    match type with
    | .named name false => some name
    | _ => none

/-- The inputs that are required in up to `rounds` more steps. -/
def requiredWithin (schema : ExecutableSchema) : Nat → List String → List String
  | 0, names => names
  | rounds + 1, names =>
    schema.requiredWithin rounds (addMissing names (names.flatMap schema.required))

/-- No value of the input can be written, because it has to hold another one. -/
def isEndless (schema : ExecutableSchema) (name : String) : Bool :=
  (schema.requiredWithin schema.types.length (schema.required name)).contains name

/-- The schema can be served. -/
def isSound (schema : ExecutableSchema) : Bool :=
  schema.typeIs queryRoot TypeShape.isObject &&
    (!schema.hasMutation || schema.typeIs mutationRoot TypeShape.isObject) &&
    schema.types.all fun (name, shape) ↦ schema.isSoundShape shape && !schema.isEndless name

/-! ## Mounting -/

/-- The definitions to mount: the query root is always among them. -/
def mountable (document : TypeDocument) : List Definition :=
  let merged := document.merge
  if merged.any (·.name == queryRoot) then merged
  else merged ++ [.new queryRoot .object]

/-- The executable schema of a document. -/
def mount (document : TypeDocument) (resolvers : ResolverTable) (scalars : ScalarRegistry) :
    Except CompileError ExecutableSchema := do
  let definitions := mountable document
  let hasMutation := definitions.any fun definition ↦
    definition.name == mutationRoot && !definition.fields.isEmpty
  let types ← typesOf resolvers scalars hasMutation definitions
  let standard := Scalar.standard.map fun name ↦ (name, TypeShape.standard)
  let types := types.filter fun (name, _) ↦ !Scalar.isStandard name
  let schema : ExecutableSchema := ⟨standard ++ types, hasMutation⟩
  if schema.isSound then return schema else throw .schemaBuildFailed

end ResourceApi.ExecutableSchema
