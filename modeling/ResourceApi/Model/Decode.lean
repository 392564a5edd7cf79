import ResourceApi.Model

/-!
# Reading models

Models are read from JSON values.  A declaration that is a list is a list declaration if every item
is a declaration, and otherwise gives the attributes by position.  Nodes can be given by position as
well.  Missing members take their defaults, members that may be absent may be null, unknown members
are ignored, and a member of the wrong type or a member that is repeated makes the whole value
unreadable.  Where names are free, the last of those repeated counts.
-/

namespace ResourceApi.Model

/-! ## Members -/

/-- A member that may be absent or null. -/
def optional (read : Json → Option α) : Option Json → Option (Option α)
  | none | some .null => some none
  | some value => (read value).map some

/-- A member that may be absent but not null. -/
def defaulted (initial : α) (read : Json → Option α) : Option Json → Option α
  | none => some initial
  | some value => read value

def readStrings (value : Json) : Option (List String) :=
  value.items?.bind fun items ↦ items.mapM Json.str?

/-- An object whose members are all of one kind. -/
def readEntries (read : Json → Option α) (value : Json) : Option (Entries α) := do
  let members ← value.members?
  return .ofList (← members.mapM fun (key, value) ↦ (read value).map fun v ↦ (key, v))

/-- No name that is known is repeated. -/
def isPlain (known : List String) (members : List (String × Json)) : Bool :=
  known.all fun name ↦ (members.filter (·.1 == name)).length ≤ 1

def readSelection : Json → Option FragmentSelection
  | .str name => some (.field name)
  | .obj members => do
    if !isPlain ["field", "part"] members then failure
    let name ← (Entries.get? members "field").bind Json.str?
    let part ← (Entries.get? members "part").bind Json.str?
    return .nested name part
  | _ => none

def readSelections (value : Json) : Option (List FragmentSelection) :=
  value.items?.bind fun items ↦ items.mapM readSelection

/-! ## Nodes and declarations -/

def attributeNames : List String :=
  ["type", "enum", "ref", "scalar", "schema", "required", "alias", "description", "options"]

def nodeNames : List String := ["generate", "fields", "fragments"]

/-- Members given by position; too many items fit no table. -/
def positional (names : List String) (items : List Json) : Option (Entries Json) :=
  if items.length ≤ names.length then some (names.zip items) else none

/-- The attributes that members give, apart from the nested node. -/
def readAttributes (members : Entries Json) (schema : Option SchemaNode) :
    Option FieldAttributes := do
  if !isPlain attributeNames members then failure
  let text := fun name ↦ optional Json.str? (Entries.get? members name)
  return {
    primitive := ← text "type"
    values := ← optional readStrings (Entries.get? members "enum")
    reference := ← text "ref"
    scalar := ← text "scalar"
    schema := schema
    required := ← defaulted false Json.bool? (Entries.get? members "required")
    typeAlias := ← text "alias"
    description := ← text "description"
    options := ((Entries.get? members "options").getD .null).distinct }

/-- The node that members give, apart from its fields. -/
def readNode (members : Entries Json) (fields : List (String × FieldSpec)) : Option SchemaNode := do
  if !isPlain nodeNames members then failure
  return {
    generate := ← optional (some ·.distinct) (Entries.get? members "generate")
    fields := Entries.ofList fields
    fragments := ← defaulted [] (readEntries readSelections) (Entries.get? members "fragments") }

mutual

def decodeSpec : Json → Option FieldSpec
  | .str name => some (.primitive name)
  | .arr items =>
    match decodeSpecs items with
    | some specs => some (.list specs)
    | none => do
      let members ← positional attributeNames items
      let schema ← decodeSchemaAt 4 items
      return .attributes (← readAttributes members schema)
  | .obj members => do
    let schema ← decodeSchemaIn members
    return .attributes (← readAttributes members schema)
  | _ => none

def decodeSpecs : List Json → Option (List FieldSpec)
  | [] => some []
  | value :: rest => do
    let spec ← decodeSpec value
    return spec :: (← decodeSpecs rest)

/-- The fields of a node, which are an object of declarations. -/
def decodeFields : Json → Option (List (String × FieldSpec))
  | .obj members => decodeFieldMembers members
  | _ => none

def decodeFieldMembers : List (String × Json) → Option (List (String × FieldSpec))
  | [] => some []
  | (name, value) :: rest => do
    let spec ← decodeSpec value
    return (name, spec) :: (← decodeFieldMembers rest)

/-- A nested node, which may be null. -/
def decodeSchema : Json → Option (Option SchemaNode)
  | .null => some none
  | .obj members => do
    let fields ← decodeFieldsIn members
    return some (← readNode members fields)
  | .arr items => do
    let members ← positional nodeNames items
    let fields ← decodeFieldsAt 1 items
    return some (← readNode members fields)
  | _ => none

/-- The nested node among the members of an attribute table. -/
def decodeSchemaIn : List (String × Json) → Option (Option SchemaNode)
  | [] => some none
  | (name, value) :: rest => if name == "schema" then decodeSchema value else decodeSchemaIn rest

/-- The nested node at a position of an attribute list. -/
def decodeSchemaAt : Nat → List Json → Option (Option SchemaNode)
  | _, [] => some none
  | 0, value :: _ => decodeSchema value
  | index + 1, _ :: rest => decodeSchemaAt index rest

def decodeFieldsIn : List (String × Json) → Option (List (String × FieldSpec))
  | [] => some []
  | (name, value) :: rest => if name == "fields" then decodeFields value else decodeFieldsIn rest

def decodeFieldsAt : Nat → List Json → Option (List (String × FieldSpec))
  | _, [] => some []
  | 0, value :: _ => decodeFields value
  | index + 1, _ :: rest => decodeFieldsAt index rest

end

def resourceNames : List String := ["resource", "operation_names", "unique", "plural"]

/-- A resource and its root node are the members of one object. -/
def decode? : Json → Option ResourceSchema
  | .obj members => do
    if !isPlain resourceNames members then failure
    let fields ← decodeFieldsIn members
    return {
      resource := ← defaulted "" Json.str? (Entries.get? members "resource")
      node := ← readNode members fields
      operationNames :=
        ← defaulted [] (readEntries Json.str?) (Entries.get? members "operation_names")
      unique := ← defaulted [] readStrings (Entries.get? members "unique")
      plural := ← optional Json.str? (Entries.get? members "plural") }
  | _ => none

end ResourceApi.Model
