import ResourceApi.Graph.Builder
import ResourceApi.Model.Classify
import ResourceApi.Options.Field

/-!
# Generating type graphs

A walk over the nodes of a model.  A node brings an object type for every segment it is visible in,
an input type for every input action, an interface and a union; each field is then written into the
types that it is attached to.  What a node is visible in is the conjunction of its own options and
those of all fields and nodes above it.
-/

namespace ResourceApi

/-- What the fields and nodes above leave visible. -/
structure Visibility where
  object : Segment → Bool
  input : InputAction → Bool

namespace Visibility

def full : Visibility := ⟨fun _ ↦ true, fun _ ↦ true⟩

/-- What is left under a further configuration. -/
def restrict (visible : Visibility) (config : GenerationConfig) : Visibility :=
  ⟨fun segment ↦ visible.object segment && config.object segment,
   fun action ↦ visible.input action && config.input action⟩

def segments (visible : Visibility) : List Segment := Segment.all.filter visible.object

def inputs (visible : Visibility) : List InputAction := InputAction.all.filter visible.input

end Visibility

namespace Synthesis

/-- The identifier field of root types. -/
def idField : FieldNode := .leaf "id" .scalar "ID" [false]

/-! ## Types of a node -/

def openObject (node : SchemaNode) (typeName : String) (level : Nat) (builder : GraphBuilder)
    (segment : Segment) : GraphBuilder :=
  let name := objectTypeName segment typeName
  let builder := (builder.ensure level name .object typeName).modify level name fun object ↦
    { object with segment := some segment, fragments := node.fragments }
  if level == 0 then builder.addField level name idField else builder

def openInput (typeName : String) (level : Nat) (builder : GraphBuilder) (action : InputAction) :
    GraphBuilder :=
  let name := inputTypeName action typeName
  let builder := builder.ensure level name (.input action) typeName
  if level == 0 && action == .update then builder.addField level name idField else builder

/-- The types of a node, as yet without its fields. -/
def openNode (node : SchemaNode) (typeName : String) (config : GenerationConfig)
    (visible : Visibility) (level : Nat) (builder : GraphBuilder) : GraphBuilder :=
  let builder := visible.segments.foldl (openObject node typeName level) builder
  let builder := visible.inputs.foldl (openInput typeName level) builder
  if config.enabled .interface then
    builder.ensure level (interfaceTypeName typeName) .interface typeName
  else builder

/-- The union of the object types of a node that have fields. -/
def closeNode (typeName : String) (config : GenerationConfig) (visible : Visibility) (level : Nat)
    (builder : GraphBuilder) : GraphBuilder :=
  let members := (visible.segments.map fun segment ↦ objectTypeName segment typeName).filter
    (builder.isAvailable level)
  if config.enabled .union && !members.isEmpty then
    let name := unionTypeName typeName
    (builder.ensure level name .union typeName).modify level name (·.addMembers members)
  else builder

/-! ## Types that a field is written into -/

/-- The link of a field that is a scalar or an enum; an enum that is not attached is text. -/
def leafLink (field : ClassifiedField) (options : FieldConfig) : Option (LinkKind × String) :=
  match field.kind with
  | .scalar => some (.scalar, field.target)
  | .enumeration _ =>
    if options.config.enabled .enumeration then some (.enumeration, field.target)
    else some (.scalar, "String")
  | .reference | .object _ => none

/-- The enum type of an attached enum field. -/
def defineEnum (typeName : String) (level : Nat) (field : ClassifiedField) (options : FieldConfig)
    (builder : GraphBuilder) : GraphBuilder :=
  match field.kind with
  | .enumeration values =>
    if options.config.enabled .enumeration then
      (builder.ensure level field.target .enumeration typeName).modify level field.target
        (·.addValues values)
    else builder
  | _ => builder

/-- The field as the object type of a segment holds it.  A field that leads to a nested object is
left out when that object has no type. -/
def objectField? (level : Nat) (field : ClassifiedField) (options : FieldConfig)
    (builder : GraphBuilder) (segment : Segment) : Option FieldNode :=
  let nullable := options.nullable.object segment
  let mapped := options.authMapper segment
  match leafLink field options with
  | some (kind, target) => some (.leaf field.name kind target nullable)
  | none =>
    if field.kind.isReference then
      some (.toObject field.name .reference mapped field.target nullable)
    else if builder.isAvailable (level + 1) (objectTypeName mapped field.target) then
      some (.toObject field.name .object mapped field.target nullable)
    else none

/-- The field as an input type holds it: references are identifiers. -/
def inputField? (level : Nat) (field : ClassifiedField) (options : FieldConfig)
    (builder : GraphBuilder) (action : InputAction) : Option FieldNode :=
  let nullable := options.nullable.input action
  match leafLink field options with
  | some (kind, target) => some (.leaf field.name kind target nullable)
  | none =>
    if field.kind.isReference then some (.leaf field.name .scalar "ID" nullable)
    else
      let nested := inputTypeName action field.target
      if builder.isAvailable (level + 1) nested then some (.leaf field.name .object nested nullable)
      else none

/-- The field as an interface holds it: a nested object is the union of its types. -/
def interfaceField? (level : Nat) (field : ClassifiedField) (options : FieldConfig)
    (builder : GraphBuilder) (nullable : List Bool) : Option FieldNode :=
  match leafLink field options with
  | some (kind, target) => some (.leaf field.name kind target nullable)
  | none =>
    if field.kind.isReference then some (.leaf field.name .scalar "ID" nullable)
    else
      let union := unionTypeName field.target
      if builder.isAvailable (level + 1) union then some (.leaf field.name .object union nullable)
      else none

/-- Writes a field, with its description, if there is one to write. -/
def write (level : Nat) (holder : String) (description : Option String) (builder : GraphBuilder) :
    Option FieldNode → GraphBuilder
  | some node => builder.addField level holder { node with description := description }
  | none => builder

def writeObjects (typeName : String) (level : Nat) (field : ClassifiedField)
    (options : FieldConfig) (visible : Visibility) (builder : GraphBuilder) : GraphBuilder :=
  visible.segments.foldl (fun builder segment ↦
    write level (objectTypeName segment typeName) field.description builder
      (objectField? level field options builder segment)) builder

def writeInputs (typeName : String) (level : Nat) (field : ClassifiedField)
    (options : FieldConfig) (visible : Visibility) (builder : GraphBuilder) : GraphBuilder :=
  visible.inputs.foldl (fun builder action ↦
    write level (inputTypeName action typeName) field.description builder
      (inputField? level field options builder action)) builder

/-- An interface holds the fields that are visible in some segments but not in all; it takes the
nullability of the first of them. -/
def writeInterface (typeName : String) (level : Nat) (field : ClassifiedField)
    (options : FieldConfig) (visible : Visibility) (builder : GraphBuilder) : GraphBuilder :=
  let name := interfaceTypeName typeName
  match visible.segments with
  | [] => builder
  | first :: rest =>
    if options.config.enabled .interface && rest.length + 1 < Segment.all.length &&
        (builder.get? level name).isSome then
      write level name field.description builder
        (interfaceField? level field options builder (options.nullable.object first))
    else builder

/-- Writes a field into the types of its node, after its nested node has been walked. -/
def writeField (typeName : String) (level : Nat) (field : ClassifiedField) (options : FieldConfig)
    (visible : Visibility) (builder : GraphBuilder) : GraphBuilder :=
  let builder := defineEnum typeName level field options builder
  let builder := writeObjects typeName level field options visible builder
  let builder := writeInputs typeName level field options visible builder
  writeInterface typeName level field options visible builder

/-! ## The walk -/

mutual

/-- Walks a node under its resolved configuration. -/
def walkNode (scalars : ScalarRegistry) (typeName : String) (config : GenerationConfig)
    (inherited : Visibility) (level : Nat) (builder : GraphBuilder) :
    SchemaNode → Except CompileError GraphBuilder
  | ⟨generate, fields, fragments⟩ => do
    let visible := inherited.restrict config
    let builder := openNode ⟨generate, fields, fragments⟩ typeName config visible level builder
    let builder ← walkFields scalars typeName config visible level builder fields
    return closeNode typeName config visible level builder

def walkFields (scalars : ScalarRegistry) (typeName : String) (config : GenerationConfig)
    (visible : Visibility) (level : Nat) (builder : GraphBuilder) :
    List (String × FieldSpec) → Except CompileError GraphBuilder
  | [] => .ok builder
  | (name, spec) :: rest => do
    let field ← ClassifiedField.classify typeName name scalars spec
    let options ← FieldConfig.resolve field.options config field.depth field.required
      field.kind.isReference
    let seen := visible.restrict options.config
    let builder ← walkNested scalars field.target options.config seen level builder spec
    let builder := writeField typeName level field options seen builder
    walkFields scalars typeName config visible level builder rest

/-- Walks the nested node of a declaration that has one. -/
def walkNested (scalars : ScalarRegistry) (target : String) (parent : GenerationConfig)
    (visible : Visibility) (level : Nat) (builder : GraphBuilder) :
    FieldSpec → Except CompileError GraphBuilder
  | .list [inner] => walkNested scalars target parent visible level builder inner
  | .attributes { schema := some ⟨generate, fields, fragments⟩, .. } => do
    let config ← GenerationConfig.resolve (generate.getD .null) parent
    walkNode scalars target config visible (level + 1) builder ⟨generate, fields, fragments⟩
  | _ => .ok builder

end

end Synthesis

/-- The type graph of a resource under its resolved configuration. -/
def TypeGraph.ofSchema (scalars : ScalarRegistry) (schema : ResourceSchema)
    (config : GenerationConfig) (existing : Entries (List String)) :
    Except CompileError TypeGraph := do
  let builder ← Synthesis.walkNode scalars schema.resource config Visibility.full 0
    (GraphBuilder.new schema.resource existing) schema.node
  return builder.finish

end ResourceApi
