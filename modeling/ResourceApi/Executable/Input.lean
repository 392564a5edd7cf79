import ResourceApi.Executable

/-!
# Input values

Which literals may be written where a type is asked for.  A single value stands for a list of one,
and any value but an object is left to the resolver where an input object is asked for.
-/

namespace ResourceApi.ExecutableSchema

/-- The literals of a standard scalar. -/
def isStandardLiteral (name : String) (value : Literal) : Bool :=
  match name, value with
  | "Int", .int n | "ID", .int n => (Json.signed? (.int n)).isSome
  | "ID", .str _ | "String", .str _ => true
  | "Float", .int _ | "Float", .float _ => true
  | "Boolean", .bool _ => true
  | _, _ => false

/-- An enum value is named or quoted. -/
def isEnumLiteral (values : List String) : Literal → Bool
  | .enumeration name | .str name => values.contains name
  | _ => false

/-- A value without members under a named type. -/
def acceptsPlain (schema : ExecutableSchema) (name : String) (value : Literal) : Bool :=
  match schema.type? name with
  | some .standard => isStandardLiteral name value
  | some (.scalar rule) => rule (value.toJson [])
  | some (.enumeration values) => isEnumLiteral values value
  | _ => true

/-- Every field that may not be null has a member. -/
def hasRequired (fields : Entries TypeRef) (members : List (String × Literal)) : Bool :=
  fields.all fun (name, type) ↦ type.nullable || members.any (·.1 == name)

mutual

/-- The literal, which has no variables, may be written under the type. -/
def accepts (schema : ExecutableSchema) (type : TypeRef) : Literal → Bool
  | .null => type.nullable
  | .list items =>
    match type with
    | .list item _ => schema.acceptsItems item items
    | .named name _ => schema.acceptsPlain name (.list items)
  | .object members =>
    match schema.type? type.name with
    | some (.input fields) => schema.acceptsMembers fields members && hasRequired fields members
    | _ => schema.acceptsPlain type.name (.object members)
  | value => schema.acceptsPlain type.name value

def acceptsItems (schema : ExecutableSchema) (type : TypeRef) : List Literal → Bool
  | [] => true
  | value :: rest => schema.accepts type value && schema.acceptsItems type rest

/-- Every member is a field of the input and may be written there. -/
def acceptsMembers (schema : ExecutableSchema) (fields : Entries TypeRef) :
    List (String × Literal) → Bool
  | [] => true
  | (name, value) :: rest =>
    (match fields.get? name with
      | some type => schema.accepts type value
      | none => false) && schema.acceptsMembers fields rest

end

end ResourceApi.ExecutableSchema
