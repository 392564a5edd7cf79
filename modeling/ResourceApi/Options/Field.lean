import ResourceApi.Options.Generation

/-!
# Field options

The options of one field: where it is attached (`attach` overrides the type switches of the node that
holds the field), which of its list levels are nullable, and which segment of its target each segment
sees.  A nullability vector has one entry per list level, outermost first, and a last one for the
named type.
-/

namespace ResourceApi

/-- A vector of `depth + 1` entries: the given ones, and defaults where none is given. -/
def padVector (given : List Bool) (depth : Nat) (list innermost : Bool) : List Bool :=
  (List.range (depth + 1)).map fun level ↦
    given[level]?.getD (if level == depth then innermost else list)

@[simp]
theorem length_padVector (given : List Bool) (depth : Nat) (list innermost : Bool) :
    (padVector given depth list innermost).length = depth + 1 := by
  simp [padVector]

/-- The nullability of a field in each type that holds it. -/
structure NullableVectors where
  object : Segment → List Bool
  input : InputAction → List Bool

namespace NullableVectors

/-- On read objects lists are non-null, and the named type is nullable unless the field is
required. -/
def padObject (given : List Bool) (depth : Nat) (required : Bool) : List Bool :=
  padVector given depth false (!required)

/-- A create input asks for required fields at every level, an update input for none. -/
def padInput (given : List Bool) (depth : Nat) (required : Bool) : InputAction → List Bool
  | .create => padVector given depth (!required) (!required)
  | .update => padVector given depth true true

def defaults (depth : Nat) (required : Bool) : NullableVectors :=
  { object := fun _ ↦ padObject [] depth required
    input := padInput [] depth required }

def setObject (vectors : NullableVectors) (segment : Segment) (vector : List Bool) :
    NullableVectors :=
  { vectors with object := fun s ↦ if s = segment then vector else vectors.object s }

def setInput (vectors : NullableVectors) (action : InputAction) (vector : List Bool) :
    NullableVectors :=
  { vectors with input := fun a ↦ if a = action then vector else vectors.input a }

/-- Reads a vector of booleans found at `path`. -/
def readVector (path : String) (value : Json) : Except CompileError (List Bool) :=
  match value.items?.bind fun items ↦ items.mapM Json.bool? with
  | some vector => .ok vector
  | none => .error (.invalidConfig (.nullableNotBooleans path))

/-- One vector for all segments, or a table of vectors by segment; other keys are ignored. -/
def readObject (vectors : NullableVectors) (depth : Nat) (required : Bool) :
    Json → Except CompileError NullableVectors
  | .arr items => do
    let given ← readVector "nullable.object" (.arr items)
    return { vectors with object := fun _ ↦ padObject given depth required }
  | .obj members =>
    members.foldlM (fun vectors (key, value) ↦
      match Segment.ofKey? key with
      | none => .ok vectors
      | some segment => do
        let given ← readVector ("nullable.object." ++ key) value
        return vectors.setObject segment (padObject given depth required)) vectors
  | other => .error (.invalidConfig (.nullableNotListOrTable "nullable.object" other))

/-- One vector for both inputs, or a table of vectors by action. -/
def readInput (vectors : NullableVectors) (depth : Nat) (required : Bool) :
    Json → Except CompileError NullableVectors
  | .arr items => do
    let given ← readVector "nullable.input" (.arr items)
    return { vectors with input := padInput given depth required }
  | .obj members =>
    InputAction.all.foldlM (fun vectors action ↦
      match Entries.get? members action.key with
      | none => .ok vectors
      | some value => do
        let given ← readVector ("nullable.input." ++ action.key) value
        return vectors.setInput action (padInput given depth required action)) vectors
  | other => .error (.invalidConfig (.nullableNotListOrTable "nullable.input" other))

def read (spec : Json) (depth : Nat) (required : Bool) : Except CompileError NullableVectors := do
  let vectors := defaults depth required
  let vectors ← match spec.get? "object" with
    | some value => vectors.readObject depth required value
    | none => .ok vectors
  match spec.get? "input" with
  | some value => vectors.readInput depth required value
  | none => .ok vectors

end NullableVectors

/-- Which segment of the target of a field is seen from each segment of its holder. -/
abbrev AuthMapper := Segment → Segment

namespace AuthMapper

/-- A reference is followed to everybody's records, a nested object stays in its segment. -/
def default (reference : Bool) : AuthMapper := if reference then fun _ ↦ .mixed else id

def set (mapper : AuthMapper) (source target : Segment) : AuthMapper :=
  fun segment ↦ if segment = source then target else mapper segment

def read (initial : AuthMapper) : Json → Except CompileError AuthMapper
  | .obj members =>
    members.foldlM (fun mapper (key, value) ↦
      match Segment.ofKey? key, value.str?.bind Segment.ofKey? with
      | some source, some target => .ok (mapper.set source target)
      | _, _ => .error (.invalidConfig (.authMapperNoSegments key value))) initial
  | other => .error (.invalidConfig (.authMapperNotTable other))

end AuthMapper

/-- The resolved options of a field.  `config` is also the parent configuration of a nested node. -/
structure FieldConfig where
  config : GenerationConfig
  nullable : NullableVectors
  authMapper : AuthMapper

namespace FieldConfig

/-- Resolves the options of a field against the configuration of the node that holds it. -/
def resolve (options : Json) (node : GenerationConfig) (depth : Nat)
    (required reference : Bool) : Except CompileError FieldConfig := do
  match options with
  | .null | .obj _ => pure ()
  | other => throw (.invalidConfig (.fieldOptionsNotTable other))
  let config ← match options.get? "attach" with
    | some attach => GenerationConfig.resolve (.obj [("type", attach)]) node
    | none => .ok node
  let nullable ← NullableVectors.read (options.get "nullable") depth required
  let authMapper ← match options.get? "authMapper" with
    | some spec => AuthMapper.read (AuthMapper.default reference) spec
    | none => .ok (AuthMapper.default reference)
  return { config, nullable, authMapper }

end FieldConfig
end ResourceApi
