import ResourceApi.Model
import ResourceApi.Options.Axes
import ResourceApi.TypeRef

/-!
# Type graphs

The types generated for one resource, by depth: level 0 holds the types of the root node, level `n + 1`
those of the nodes nested in nodes of level `n`.
-/

namespace ResourceApi

inductive TypeKind where
  | object
  | input (action : InputAction)
  | interface
  | union
  | enumeration
deriving DecidableEq, Repr

namespace TypeKind

def all : List TypeKind :=
  [.object, .input .create, .input .update, .interface, .union, .enumeration]

def key : TypeKind → String
  | .object => "object"
  | .input action => action.key ++ "_input"
  | .interface => "interface"
  | .union => "union"
  | .enumeration => "enum"

def ofKey? (key : String) : Option TypeKind := all.find? (·.key == key)

end TypeKind

/-- What a field of a generated type points at. -/
inductive LinkKind where
  | scalar
  | enumeration
  | reference
  | object
deriving DecidableEq, Repr

namespace LinkKind

/-- Scalars and enums are selected without a selection of their own. -/
def isLeaf : LinkKind → Bool
  | .scalar | .enumeration => true
  | .reference | .object => false

def all : List LinkKind := [.scalar, .enumeration, .reference, .object]

def key : LinkKind → String
  | .scalar => "scalar"
  | .enumeration => "enum"
  | .reference => "reference"
  | .object => "object"

def ofKey? (key : String) : Option LinkKind := all.find? (·.key == key)

end LinkKind

/-! ## Names of types -/

def objectTypeName (segment : Segment) (base : String) : String :=
  segment.label ++ base ++ "Object"

def inputTypeName (action : InputAction) (base : String) : String :=
  action.label ++ base ++ "Input"

def interfaceTypeName (base : String) : String := base ++ "Interface"

def unionTypeName (base : String) : String := base ++ "Union"

/-! ## Fields -/

/-- A field of a generated type.  `decorated` is its type as it is written, with `depth` lists around the
named type.  Fields that lead to objects know the segment and the model type of their target. -/
structure FieldNode where
  name : String
  kind : LinkKind
  typeName : String
  decorated : String
  depth : Nat
  nullable : List Bool
  description : Option String
  target : Option (Segment × String)
deriving DecidableEq

namespace FieldNode

def leaf (name : String) (kind : LinkKind) (typeName : String) (nullable : List Bool) : FieldNode :=
  { name, kind, typeName, decorated := decorate typeName nullable, depth := nullable.length - 1,
    nullable, description := none, target := none }

/-- A field that leads to the object type of a model type in a segment. -/
def toObject (name : String) (kind : LinkKind) (segment : Segment) (base : String)
    (nullable : List Bool) : FieldNode :=
  { leaf name kind (objectTypeName segment base) nullable with target := some (segment, base) }

/-- Points the field at another named type and keeps its shape. -/
def retarget (field : FieldNode) (typeName : String) (kind : LinkKind) : FieldNode :=
  { field with
    typeName, kind
    decorated := decorate typeName field.nullable
    target := none }

/-- A field of type text that is no list. -/
def isText (field : FieldNode) : Bool :=
  field.kind == .scalar && field.depth == 0 && field.typeName == "String"

end FieldNode

/-! ## Types -/

/-- Appends the texts that are not there yet. -/
def addMissing (present more : List String) : List String :=
  more.foldl (fun all text ↦ if all.contains text then all else all ++ [text]) present

/-- A generated type.  `base` is the model type it comes from; `extending` marks a type that an
initial document defines already. -/
structure TypeNode where
  name : String
  kind : TypeKind
  base : String
  segment : Option Segment
  fields : Entries FieldNode
  members : List String
  values : List String
  fragments : List (String × List FragmentSelection)
  extending : Bool
deriving DecidableEq

namespace TypeNode

def new (name : String) (kind : TypeKind) (base : String) (extending : Bool) : TypeNode :=
  { name, kind, base, segment := none, fields := [], members := [], values := [],
    fragments := [], extending }

/-- The type has nothing to define. -/
def isEmpty (node : TypeNode) : Bool :=
  match node.kind with
  | .union => node.members.isEmpty
  | .enumeration => node.values.isEmpty
  | _ => node.fields.isEmpty

def addMembers (node : TypeNode) (members : List String) : TypeNode :=
  { node with members := addMissing node.members members }

def addValues (node : TypeNode) (values : List String) : TypeNode :=
  { node with values := addMissing node.values values }

def isInput (node : TypeNode) : Bool :=
  match node.kind with
  | .input _ => true
  | _ => false

end TypeNode

/-! ## Graphs -/

abbrev Level := Entries TypeNode

structure TypeGraph where
  resource : String
  levels : List Level
deriving DecidableEq

namespace TypeGraph

/-- The first type of a name, from the root down. -/
def get? (graph : TypeGraph) (name : String) : Option TypeNode :=
  graph.levels.findSome? fun level ↦ level.get? name

def has (graph : TypeGraph) (name : String) : Bool := (graph.get? name).isSome

/-- All types from the root down. -/
def definitions (graph : TypeGraph) : List TypeNode := graph.levels.flatMap Entries.values

/-- The object types with their levels. -/
def objects (graph : TypeGraph) : List (Nat × TypeNode) :=
  graph.levels.zipIdx.flatMap fun (level, depth) ↦
    (level.values.filter (·.kind == .object)).map fun node ↦ (depth, node)

/-- The object types of one level. -/
def objectsAt (graph : TypeGraph) (depth : Nat) : List TypeNode :=
  ((graph.levels[depth]?.getD []).values).filter (·.kind == .object)

/-- The object type of the root node in a segment. -/
def root? (graph : TypeGraph) (segment : Segment) : Option TypeNode :=
  graph.levels.head?.bind fun level ↦ level.get? (objectTypeName segment graph.resource)

def size (graph : TypeGraph) : Nat := graph.definitions.length

/-- Applies `f` to every field. -/
def mapFields (graph : TypeGraph) (f : FieldNode → FieldNode) : TypeGraph :=
  { graph with levels := graph.levels.map fun level ↦ level.map fun (name, node) ↦
      (name, { node with fields := node.fields.map fun (field, value) ↦ (field, f value) }) }

end TypeGraph
end ResourceApi
