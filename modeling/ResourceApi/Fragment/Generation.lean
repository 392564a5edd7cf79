import ResourceApi.Fragment
import ResourceApi.Graph

/-!
# Generating fragments

Every object type gets four built-in parts, and after them the custom parts of its model node.  A part
of a nested object spreads the same part of the nested type; references spread the part of their
target that holds no references, so a reference is followed once.  Parts are generated in passes, each
from the deepest level up, so that every fragment precedes those that spread it.
-/

namespace ResourceApi

namespace Fragment

def whole : String := "Whole"
def scalarsOnly : String := "ScalarsOnly"
def objectsNone : String := "ObjectsNone"
def refsNone : String := "RefsNone"

/-- The built-in parts in the order in which they are listed. -/
def builtinParts : List String := [whole, scalarsOnly, objectsNone, refsNone]

/-- The name of the fragment for a part of a type. -/
def nameFor (node : TypeNode) (part : String) : String :=
  (node.segment.map Segment.label).getD "" ++ node.base ++ part ++ "Fragment"

end Fragment

namespace FragmentSet

open Fragment

/-! ## Rules of the parts -/

/-- A field with the fragment of a part of its target, if that part is not empty. -/
def spreadOf? (set : FragmentSet) (field : FieldNode) (part : String) : Option Selection :=
  (set.fragmentFor? field.typeName part).map fun fragment ↦ .spread field.name fragment

/-- A reference with a part of its target, or else with its identifier. -/
def referenceOf (set : FragmentSet) (field : FieldNode) (part : String) : Selection :=
  (set.spreadOf? field part).getD (.idOnly field.name)

def selectScalarsOnly (field : FieldNode) : Option Selection :=
  if field.kind.isLeaf then some (.field field.name) else none

def selectRefsNone (set : FragmentSet) (field : FieldNode) : Option Selection :=
  match field.kind with
  | .scalar | .enumeration => some (.field field.name)
  | .object => set.spreadOf? field refsNone
  | .reference => none

def selectObjectsNone (field : FieldNode) : Option Selection :=
  match field.kind with
  | .scalar | .enumeration => some (.field field.name)
  | .reference => some (.idOnly field.name)
  | .object => none

def selectWhole (set : FragmentSet) (field : FieldNode) : Option Selection :=
  match field.kind with
  | .scalar | .enumeration => some (.field field.name)
  | .object => set.spreadOf? field whole
  | .reference => some (set.referenceOf field refsNone)

/-- An entry of a custom part.  A nested object takes the part asked for, or the whole; a reference
takes a built-in part only. -/
def selectCustom (set : FragmentSet) (node : TypeNode) (entry : FragmentSelection) :
    Option Selection := do
  let field ← node.fields.get? entry.fieldName
  match field.kind with
  | .scalar | .enumeration => some (.field field.name)
  | .object => set.spreadOf? field (entry.part?.getD whole)
  | .reference =>
    let part := (entry.part?.filter builtinParts.contains).getD refsNone
    some (set.referenceOf field part)

/-! ## Passes -/

/-- Records what a part of a type selects; an empty part has no fragment. -/
def record (set : FragmentSet) (node : TypeNode) (part : String) (selections : List Selection) :
    FragmentSet :=
  if selections.isEmpty then
    { set with parts := Entries.adjust node.name (Entries.put part none) set.parts }
  else
    let name := nameFor node part
    { definitions := Entries.put name { name, on := node.name, part, selections } set.definitions
      parts := Entries.adjust node.name (Entries.put part (some name)) set.parts }

/-- Records a part whose fields are selected one by one. -/
def emit (part : String) (select : FragmentSet → FieldNode → Option Selection)
    (set : FragmentSet) (node : TypeNode) : FragmentSet :=
  set.record node part (node.fields.values.filterMap (select set))

/-- Lists the built-in parts of a type, all empty as yet. -/
def announce (set : FragmentSet) (node : TypeNode) : FragmentSet :=
  let before := (set.parts.get? node.name).getD []
  let parts := builtinParts.foldl (fun parts part ↦ Entries.put part none parts) before
  { set with parts := Entries.put node.name parts set.parts }

/-- Parts that hold no references. -/
def emitClosed (set : FragmentSet) (node : TypeNode) : FragmentSet :=
  emit refsNone selectRefsNone (emit scalarsOnly (fun _ ↦ selectScalarsOnly) set node) node

/-- The custom parts of a type; they do not replace the built-in ones. -/
def emitCustom (set : FragmentSet) (node : TypeNode) : FragmentSet :=
  node.fragments.foldl (fun set (part, entries) ↦
    if builtinParts.contains part then set
    else set.record node part (entries.filterMap (set.selectCustom node))) set

/-- The object types of all graphs from the deepest level up; within a level, in the order of the
graphs and of the types in them. -/
def deepestFirst (graphs : List TypeGraph) : List TypeNode :=
  let depth := (graphs.map fun graph ↦ graph.levels.length).foldl max 0
  (List.range depth).reverse.flatMap fun level ↦ graphs.flatMap fun graph ↦ graph.objectsAt level

/-- The fragments of every object type. -/
def ofGraphs (graphs : List TypeGraph) : FragmentSet :=
  let objects := deepestFirst graphs
  let set := objects.foldl announce empty
  let set := objects.foldl emitClosed set
  let set := objects.foldl (emit objectsNone fun _ ↦ selectObjectsNone) set
  let set := objects.foldl (emit whole selectWhole) set
  objects.foldl emitCustom set

end FragmentSet
end ResourceApi
