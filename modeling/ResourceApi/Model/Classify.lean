import ResourceApi.Error
import ResourceApi.Model
import ResourceApi.Scalar
import ResourceApi.Text.Words

/-!
# Classification

What a permissive declaration means: its kind, the number of lists around it and the name of the
type it is about.  Of several attributes that give a kind, a nested node wins over enum values, those
over a reference, that over a scalar, and a scalar over a primitive.
-/

namespace ResourceApi

inductive FieldKind where
  | scalar
  | enumeration (values : List String)
  | reference
  | object (node : SchemaNode)

namespace FieldKind

def isReference : FieldKind → Bool
  | .reference => true
  | _ => false

def isObject : FieldKind → Bool
  | .object _ => true
  | _ => false

end FieldKind

/-- A declaration with its kind.  `target` names the scalar, the enum, the referenced resource or
the nested type. -/
structure ClassifiedField where
  name : String
  kind : FieldKind
  depth : Nat
  target : String
  required : Bool
  description : Option String
  options : Json

namespace ClassifiedField

/-- The scalar of a primitive, which may also be a registered scalar. -/
def primitiveScalar (parent name primitive : String) (scalars : ScalarRegistry) :
    Except CompileError String :=
  match Scalar.ofPrimitive? primitive with
  | some scalar => .ok scalar
  | none =>
    if scalars.has primitive then .ok primitive
    else .error (.unknownScalar parent name primitive)

/-- The scalar that is named explicitly. -/
def explicitScalar (parent name scalar : String) (scalars : ScalarRegistry) :
    Except CompileError String :=
  match Scalar.ofPrimitive? scalar with
  | some scalar => .ok scalar
  | none =>
    if scalars.isKnown scalar then .ok scalar else .error (.unknownScalar parent name scalar)

/-- The name of the type of a nested node. -/
def nestedTypeName (parent localName : String) : String :=
  parent ++ Text.upperCamelCase localName

def enumTypeName (parent name : String) : String :=
  Text.upperSnakeCase (parent ++ "_" ++ name)

/-- The kind that attributes give and the type it is about. -/
def kindOf (parent name : String) (scalars : ScalarRegistry) (attributes : FieldAttributes) :
    Except CompileError (FieldKind × String) := do
  if let some node := attributes.schema then
    return (.object node, nestedTypeName parent (attributes.typeAlias.getD name))
  else if let some values := attributes.values then
    if values.isEmpty then throw (.unclassifiableField parent name .emptyEnum)
    return (.enumeration values, enumTypeName parent name)
  else if let some resource := attributes.reference then
    if resource.isEmpty then throw (.unclassifiableField parent name .emptyReference)
    return (.reference, resource)
  else if let some scalar := attributes.scalar then
    return (.scalar, ← explicitScalar parent name scalar scalars)
  else if let some primitive := attributes.primitive then
    return (.scalar, ← primitiveScalar parent name primitive scalars)
  else throw (.unclassifiableField parent name .untyped)

/-- Classifies a declaration found inside `depth` lists. -/
def classifyAt (parent name : String) (scalars : ScalarRegistry) (depth : Nat) :
    FieldSpec → Except CompileError ClassifiedField
  | .list [inner] => classifyAt parent name scalars (depth + 1) inner
  | .list items => .error (.unclassifiableField parent name (.listElements items.length))
  | .primitive primitive => do
    let target ← primitiveScalar parent name primitive scalars
    return { name, kind := .scalar, depth, target, required := false,
             description := none, options := .null }
  | .attributes attributes => do
    let (kind, target) ← kindOf parent name scalars attributes
    return { name, kind, depth, target, required := attributes.required,
             description := attributes.description, options := attributes.options }

/-- Classifies the field `name` of the type `parent`. -/
def classify (parent name : String) (scalars : ScalarRegistry) (spec : FieldSpec) :
    Except CompileError ClassifiedField :=
  classifyAt parent name scalars 0 spec

end ClassifiedField
end ResourceApi
