import ResourceApi.Entries
import ResourceApi.Json

/-!
# Fragments

A fragment is a named selection on one object type; it selects leaves, references by their identifier,
and fields whose own selection is another fragment.  A fragment set keeps its fragments in order of
definition and tells for every object type which fragment holds which part.
-/

namespace ResourceApi

inductive Selection where
  | field (name : String)
  | idOnly (name : String)
  | spread (name fragment : String)
deriving DecidableEq, Repr

namespace Selection

def fieldName : Selection → String
  | .field name => name
  | .idOnly name => name
  | .spread name _ => name

/-- The fragment that a selection spreads. -/
def spread? : Selection → Option String
  | .spread _ fragment => some fragment
  | _ => none

def render : Selection → String
  | .field name => "  " ++ name ++ "\n"
  | .idOnly name => "  " ++ name ++ " \x7b\n    id\n  \x7d\n"
  | .spread name fragment => "  " ++ name ++ " \x7b\n    ..." ++ fragment ++ "\n  \x7d\n"

end Selection

/-- A fragment on the object type `on`, holding the part `part` of it. -/
structure Fragment where
  name : String
  on : String
  part : String
  selections : List Selection
deriving DecidableEq, Repr

namespace Fragment

def spreads (fragment : Fragment) : List String := fragment.selections.filterMap (·.spread?)

def render (fragment : Fragment) : String :=
  "fragment " ++ fragment.name ++ " on " ++ fragment.on ++ " \x7b\n" ++
    String.join (fragment.selections.map Selection.render) ++ "\x7d\n"

end Fragment

/-- The fragment of every part of every object type; a part that would be empty has none. -/
abbrev PartTable := Entries (Entries (Option String))

structure FragmentSet where
  definitions : Entries Fragment
  parts : PartTable
deriving DecidableEq

namespace FragmentSet

def empty : FragmentSet := ⟨[], []⟩

def get? (set : FragmentSet) (name : String) : Option Fragment := set.definitions.get? name

/-- The fragment that holds a part of an object type. -/
def fragmentFor? (set : FragmentSet) (object part : String) : Option String :=
  (set.parts.get? object).bind fun parts ↦ (parts.get? part).join

/-- The parts of an object type that are not empty, with their fragments. -/
def partsOf (set : FragmentSet) (object : String) : List (String × String) :=
  ((set.parts.get? object).getD []).filterMap fun (part, name) ↦
    name.map fun name ↦ (part, name)

def render (set : FragmentSet) : String :=
  "\n".intercalate (set.definitions.values.map Fragment.render)

end FragmentSet
end ResourceApi
