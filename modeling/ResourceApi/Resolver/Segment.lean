import ResourceApi.Options.Axes
import ResourceApi.Resolver.Context

/-!
# Segments of records

Which records a segment shows to a caller, once as a filter for queries and once as a test of a single
record for references.  The caller's own records are those whose owner is the caller; the others are
all the rest; without a caller only the mixed segment can be queried.
-/

namespace ResourceApi.Segment

/-- The filter of a segment. -/
def filter? (segment : Segment) (caller : Option String) : Except ResolveError Json :=
  match segment, caller with
  | .mixed, _ => .ok (.obj [])
  | .own, some caller => .ok (.obj [(ownerField, .str caller)])
  | .others, some caller => .ok (.obj [(ownerField, .obj [("$ne", .str caller)])])
  | segment, none => .error (.queryNeedsCaller segment.key)

/-- The record is visible in the segment. -/
def allows (segment : Segment) (record : Json) (caller : Option String) : Bool :=
  let owner := (record.get? ownerField).bind Json.str?
  match segment with
  | .own => caller.isSome && owner == caller
  | .others => caller.isSome && owner != caller
  | .mixed => true

end ResourceApi.Segment

namespace ResourceApi.Filter

def isEmpty : Json → Bool
  | .obj members => members.isEmpty
  | _ => false

/-- The filter that asks for both filters; an empty one is dropped. -/
def both (left right : Json) : Json :=
  if isEmpty left then right
  else if isEmpty right then left
  else .obj [("$and", .arr [left, right])]

end ResourceApi.Filter
