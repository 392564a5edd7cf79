import ResourceApi.Model

/-!
# Writing models

The JSON form of a model, with the members in a fixed order.  Empty and absent members are left out,
except `resource`, `fields` and `required`, which are always written.
-/

namespace ResourceApi.Model

def encodeSelection : FragmentSelection → Json
  | .field name => .str name
  | .nested name part => .obj [("field", .str name), ("part", .str part)]

def encodeFragments (fragments : List (String × List FragmentSelection)) : Json :=
  .obj (fragments.map fun (part, selections) ↦ (part, .arr (selections.map encodeSelection)))

/-- A member that is written only when there is a value. -/
def present (name : String) : Option Json → List (String × Json)
  | some value => [(name, value)]
  | none => []

/-- A member that is written unless it is empty. -/
def unlessEmpty (name : String) (items : List α) (value : Json) : List (String × Json) :=
  if items.isEmpty then [] else [(name, value)]

mutual

def encodeSpec : FieldSpec → Json
  | .list items => .arr (encodeSpecs items)
  | .attributes attributes => .obj (encodeAttributes attributes)
  | .primitive name => .str name

def encodeSpecs : List FieldSpec → List Json
  | [] => []
  | spec :: rest => encodeSpec spec :: encodeSpecs rest

def encodeAttributes : FieldAttributes → List (String × Json)
  | { primitive, values, reference, scalar, schema, required, typeAlias, description, options } =>
    present "type" (primitive.map .str) ++ present "enum" (values.map Json.strings) ++
      present "ref" (reference.map .str) ++ present "scalar" (scalar.map .str) ++
      encodeSchema schema ++
      [("required", .bool required)] ++
      present "alias" (typeAlias.map .str) ++ present "description" (description.map .str) ++
      if options.isNull then [] else [("options", options)]

def encodeSchema : Option SchemaNode → List (String × Json)
  | none => []
  | some node => [("schema", .obj (encodeNode node))]

def encodeNode : SchemaNode → List (String × Json)
  | { generate, fields, fragments } =>
    present "generate" generate ++ [("fields", .obj (encodeFields fields))] ++
      unlessEmpty "fragments" fragments (encodeFragments fragments)

def encodeFields : List (String × FieldSpec) → List (String × Json)
  | [] => []
  | (name, spec) :: rest => (name, encodeSpec spec) :: encodeFields rest

end

def encode (schema : ResourceSchema) : Json :=
  .obj (("resource", .str schema.resource) :: encodeNode schema.node ++
    unlessEmpty "operation_names" schema.operationNames
      (.obj (schema.operationNames.map fun (name, value) ↦ (name, .str value))) ++
    unlessEmpty "unique" schema.unique (Json.strings schema.unique) ++
    present "plural" (schema.plural.map .str))

end ResourceApi.Model
