import ResourceApi.Graph

/-!
# Building type graphs

A builder collects the types of a graph.  The first writer wins: a type that is there keeps its kind
and base, and a field that a type has, or that an initial document defines on it, is not written
again.  Finishing drops the types that stayed empty.
-/

namespace ResourceApi

/-- A graph under construction.  `existing` gives the fields of the types of an initial document. -/
structure GraphBuilder where
  graph : TypeGraph
  existing : Entries (List String)

namespace GraphBuilder

def new (resource : String) (existing : Entries (List String)) : GraphBuilder :=
  ⟨⟨resource, []⟩, existing⟩

/-- Applies `f` to a level, after empty levels are added up to it. -/
def atLevel (f : Level → Level) : Nat → List Level → List Level
  | 0, [] => [f []]
  | 0, level :: rest => f level :: rest
  | n + 1, [] => [] :: atLevel f n []
  | n + 1, level :: rest => level :: atLevel f n rest

def updateLevel (builder : GraphBuilder) (level : Nat) (f : Level → Level) : GraphBuilder :=
  { builder with graph.levels := atLevel f level builder.graph.levels }

def get? (builder : GraphBuilder) (level : Nat) (name : String) : Option TypeNode :=
  builder.graph.levels[level]?.bind fun types ↦ types.get? name

/-- Makes sure that a type is there; one that is there stays as it is. -/
def ensure (builder : GraphBuilder) (level : Nat) (name : String) (kind : TypeKind)
    (base : String) : GraphBuilder :=
  builder.updateLevel level fun types ↦
    if types.has name then types
    else types ++ [(name, TypeNode.new name kind base (builder.existing.has name))]

/-- Changes a type that is there. -/
def modify (builder : GraphBuilder) (level : Nat) (name : String) (f : TypeNode → TypeNode) :
    GraphBuilder :=
  builder.updateLevel level (Entries.adjust name f)

/-- The type can be pointed at: it has something to define, or an initial document defines it. -/
def isAvailable (builder : GraphBuilder) (level : Nat) (name : String) : Bool :=
  builder.existing.has name ||
    match builder.get? level name with
    | some node => !node.isEmpty
    | none => false

/-- Whether the initial document defines a field. -/
def definedBefore (builder : GraphBuilder) (name field : String) : Bool :=
  match builder.existing.get? name with
  | some fields => fields.contains field
  | none => false

/-- The type is there and has no such field, nor has it one in the initial document. -/
def canAdd (builder : GraphBuilder) (level : Nat) (name field : String) : Bool :=
  !builder.definedBefore name field &&
    match builder.get? level name with
    | some node => !node.fields.has field
    | none => false

/-- Writes a field unless the type has it. -/
def addField (builder : GraphBuilder) (level : Nat) (name : String) (field : FieldNode) :
    GraphBuilder :=
  if builder.canAdd level name field.name then
    builder.modify level name fun node ↦ { node with fields := node.fields ++ [(field.name, field)] }
  else builder

/-- Empty levels at the end are dropped, those between others stay. -/
def trimLevels : List Level → List Level
  | [] => []
  | level :: rest =>
    match trimLevels rest with
    | [] => if level.isEmpty then [] else [level]
    | rest => level :: rest

def finish (builder : GraphBuilder) : TypeGraph :=
  let filled := builder.graph.levels.map fun level ↦ level.filter fun (_, node) ↦ !node.isEmpty
  { builder.graph with levels := trimLevels filled }

end GraphBuilder
end ResourceApi
