import ResourceApi.Document

/-!
# The JSON form of type documents

A list of definitions with the members in a fixed order; absent and empty members are left out.
-/

namespace ResourceApi

namespace TypeDocument

def textMember (name : String) : Option String → List (String × Json)
  | some text => [(name, .str text)]
  | none => []

def listMember (name : String) (items : List Json) : List (String × Json) :=
  if items.isEmpty then [] else [(name, .arr items)]

def encodeArgument (argument : ArgumentDefinition) : Json :=
  .obj ([("name", .str argument.name), ("type", .str argument.type)] ++
    textMember "default" argument.default)

def encodeField (field : FieldDefinition) : Json :=
  .obj ([("name", .str field.name), ("type", .str field.type)] ++
    listMember "arguments" (field.arguments.map encodeArgument) ++
    textMember "default" field.default ++ textMember "description" field.description)

def encodeDefinition (definition : Definition) : Json :=
  .obj ([("name", .str definition.name), ("kind", .str definition.kind.key),
      ("extend", .bool definition.extending)] ++
    textMember "description" definition.description ++
    listMember "fields" (definition.fields.map encodeField) ++
    listMember "members" (definition.members.map .str) ++
    listMember "values" (definition.values.map .str) ++
    textMember "resource" definition.resource)

def encode (document : TypeDocument) : Json := .arr (document.map encodeDefinition)

end TypeDocument
end ResourceApi
