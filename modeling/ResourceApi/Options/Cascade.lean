import ResourceApi.Error
import ResourceApi.Path

/-!
# Cascading overrides

An option document is flattened to dotted paths.  Each boolean leaf of a partial document overrides
the leaf of the base at the same path and every leaf below it, shallow paths before deep ones, so
that `false` on a branch disables all of it while a deeper `true` of the same partial re-enables its
own leaf.  Paths the base does not know are ignored.
-/

namespace ResourceApi.Options

/-- Dotted paths and their values. -/
abbrev Flat := Entries Json

def childPath (parent key : String) : String := if parent.isEmpty then key else s!"{parent}.{key}"

mutual

/-- Adds the leaves of a value found at `path`; arrays are leaves, empty objects have none. -/
def flattenInto (path : String) (flat : Flat) : Json → Flat
  | .obj members => flattenMembers path flat members
  | leaf => Entries.put path leaf flat

def flattenMembers (path : String) (flat : Flat) : List (String × Json) → Flat
  | [] => flat
  | (key, value) :: rest =>
    flattenMembers path (flattenInto (childPath path key) flat value) rest

end

def flatten (value : Json) : Flat := flattenInto "" [] value

/-- Writes a value below the members of an object, making objects of what is in the way. -/
def insertPath (members : Entries Json) (value : Json) : List String → Entries Json
  | [] => members
  | [last] => Entries.put last value members
  | head :: rest =>
    let child := ((Entries.get? members head).bind Json.members?).getD []
    Entries.put head (.obj (insertPath child value rest)) members

def unflatten (flat : Flat) : Json :=
  .obj (flat.foldl (fun members (path, value) ↦ insertPath members value (Path.segments path)) [])

/-! ## Overrides -/

/-- Sets every value whose path satisfies `within`. -/
def setWhere (within : String → Bool) (enabled : Bool) (base : Flat) : Flat :=
  base.map fun (path, value) ↦ (path, if within path then .bool enabled else value)

/-- Applies one override; a known path takes booleans only. -/
def applyOverride (base : Flat) (path : String) (value : Json) : Except CompileError Flat :=
  if base.keys.any (Path.isWithin path) then
    match value with
    | .bool enabled => .ok (setWhere (Path.isWithin path) enabled base)
    | _ => .error (.invalidConfig (.optionNotBoolean path value))
  else .ok base

/-- Applies overrides in turn up to the first that fails; the base keeps those before it. -/
def applyAll (base : Flat) : List (String × Json) → Flat × Option CompileError
  | [] => (base, none)
  | (path, value) :: rest =>
    match applyOverride base path value with
    | .ok base => applyAll base rest
    | .error e => (base, some e)

/-- The leaves of a partial, shallow paths first. -/
def overridesOf (fragment : Json) : List (String × Json) :=
  (flatten fragment).mergeSort fun (p, _) (q, _) ↦ Path.depth p ≤ Path.depth q

/-- Overrides `base` by a partial document; a single boolean stands for every leaf. -/
def override (base : Flat) (fragment : Json) : Flat × Option CompileError :=
  match fragment with
  | .bool enabled => (setWhere (fun _ ↦ true) enabled base, none)
  | _ => applyAll base (overridesOf fragment)

end ResourceApi.Options
