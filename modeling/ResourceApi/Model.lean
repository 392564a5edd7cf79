import ResourceApi.Json
import ResourceApi.Text.Plural

/-!
# Resource models

A resource is described by a tree of nodes.  The fields of a node are declared in a permissive form:
as the name of a primitive, as a table of attributes, or as a list around another declaration.
-/

namespace ResourceApi

/-- One entry of a custom fragment part: a field, or a field with a part of its target. -/
inductive FragmentSelection where
  | field (name : String)
  | nested (name part : String)
deriving DecidableEq, Repr

namespace FragmentSelection

def fieldName : FragmentSelection → String
  | .field name => name
  | .nested name _ => name

def part? : FragmentSelection → Option String
  | .field _ => none
  | .nested _ part => some part

end FragmentSelection

mutual

/-- A resource or a nested object: its options, its fields and its custom fragment parts. -/
structure SchemaNode where
  generate : Option Json
  fields : List (String × FieldSpec)
  fragments : List (String × List FragmentSelection)

/-- A field declaration as written. -/
inductive FieldSpec where
  | list (items : List FieldSpec)
  | attributes (attributes : FieldAttributes)
  | primitive (name : String)

/-- The attribute table of a declaration.  `typeAlias` names the nested type instead of the field. -/
structure FieldAttributes where
  primitive : Option String
  values : Option (List String)
  reference : Option String
  scalar : Option String
  schema : Option SchemaNode
  required : Bool
  typeAlias : Option String
  description : Option String
  options : Json

end

instance : Inhabited SchemaNode := ⟨⟨none, [], []⟩⟩

/-- A resource: its root node, replacements for generated operation names, the fields whose values
are unique, and its plural where the derived one does not fit. -/
structure ResourceSchema where
  resource : String
  node : SchemaNode
  operationNames : Entries String
  unique : List String
  plural : Option String
deriving Inhabited

namespace ResourceSchema

def pluralName (schema : ResourceSchema) : String :=
  schema.plural.getD (Text.pluralize schema.resource)

/-- A resource needs a name that is not blank. -/
def isNamed (schema : ResourceSchema) : Bool := !(Text.trim schema.resource).isEmpty

end ResourceSchema
end ResourceApi
