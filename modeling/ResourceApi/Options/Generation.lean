import ResourceApi.Options.Axes
import ResourceApi.Options.Cascade

/-!
# Generation options

A resolved configuration says of every leaf, that is of every kind of type and every operation,
whether it is generated.  A partial option document is resolved against a parent configuration by
the cascade of `ResourceApi.Options.Cascade` over the paths of the leaves.
-/

namespace ResourceApi

/-- One switch of a configuration. -/
inductive Leaf where
  | interface
  | enumeration
  | union
  | object (segment : Segment)
  | input (action : InputAction)
  | query (range : QueryRange) (segment : Segment) (part : QueryPart)
  | mutation (action : Action) (target : Target)
deriving DecidableEq, Repr

namespace Leaf

def types : List Leaf :=
  [.interface, .enumeration, .union] ++ Segment.all.map .object ++ InputAction.all.map .input

def queries : List Leaf :=
  QueryRange.every.flatMap fun range ↦ Segment.all.flatMap fun segment ↦
    QueryPart.all.map fun part ↦ .query range segment part

def mutations : List Leaf :=
  Action.all.flatMap fun action ↦ Target.all.map fun target ↦ .mutation action target

def all : List Leaf := types ++ queries ++ mutations

/-- The path of a leaf in an option document. -/
def path : Leaf → String
  | .interface => "type.interface"
  | .enumeration => "type.enum"
  | .union => "type.union"
  | .object segment => "type.object." ++ segment.key
  | .input action => "type.input." ++ action.key
  | .query range segment part => "query." ++ range.key ++ "." ++ segment.key ++ "." ++ part.key
  | .mutation action target => "mutation." ++ action.key ++ "." ++ target.key

theorem mem_all (leaf : Leaf) : leaf ∈ all := by
  cases leaf with
  | interface | enumeration | union => decide
  | object segment => cases segment <;> decide
  | input action => cases action <;> decide
  | query range segment part => cases range <;> cases segment <;> cases part <;> decide
  | mutation action target => cases action <;> cases target <;> decide

end Leaf

/-- Which leaves are generated. -/
structure GenerationConfig where
  enabled : Leaf → Bool

namespace GenerationConfig

/-- Everything is generated. -/
def full : GenerationConfig := ⟨fun _ ↦ true⟩

def object (config : GenerationConfig) (segment : Segment) : Bool :=
  config.enabled (.object segment)

def input (config : GenerationConfig) (action : InputAction) : Bool :=
  config.enabled (.input action)

/-- The leaves as the entries of a flat option document. -/
def toFlat (config : GenerationConfig) : Options.Flat :=
  Leaf.all.map fun leaf ↦ (leaf.path, .bool (config.enabled leaf))

/-- Reads every leaf off a flat option document. -/
def ofFlat (flat : Options.Flat) : GenerationConfig :=
  ⟨fun leaf ↦ ((Entries.get? flat leaf.path).bind Json.bool?).getD false⟩

/-- Resolves a partial document against a parent; null is the parent itself. -/
def resolve (fragment : Json) (parent : GenerationConfig) :
    Except CompileError GenerationConfig :=
  match fragment with
  | .null => .ok parent
  | .bool _ | .obj _ =>
    match Options.override parent.toFlat fragment with
    | (flat, none) => .ok (ofFlat flat)
    | (_, some e) => .error e
  | other => .error (.invalidConfig (.generationNotTable other))

end GenerationConfig
end ResourceApi
