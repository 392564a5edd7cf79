/-!
# Axes of generation

The small enumerations that options, types and operations are indexed by.  Every axis lists its
points in generation order (`all`), names them in option documents (`key`) and in generated names
(`label`).
-/

namespace ResourceApi

/-- Whose records a type or an operation is about, seen from the caller. -/
inductive Segment where
  | own
  | others
  | mixed
deriving DecidableEq, Repr, Inhabited

namespace Segment

def all : List Segment := [.own, .others, .mixed]

def key : Segment → String
  | .own => "self"
  | .others => "others"
  | .mixed => "mixed"

def label : Segment → String
  | .own => "Self"
  | .others => "Others"
  | .mixed => "Mixed"

def ofKey? (key : String) : Option Segment := all.find? (·.key == key)

@[simp]
theorem ofKey?_key (segment : Segment) : ofKey? segment.key = some segment := by
  cases segment <;> decide

end Segment

/-- How the records of a query are selected. -/
inductive QueryRange where
  | all
  | filtered
  | paginated
  | byId
deriving DecidableEq, Repr, Inhabited

/-- What a query returns of its records. -/
inductive QueryPart where
  | whole
  | count
  | nameAndId
deriving DecidableEq, Repr, Inhabited

namespace QueryPart

def all : List QueryPart := [.whole, .count, .nameAndId]

def key : QueryPart → String
  | .whole => "whole"
  | .count => "count"
  | .nameAndId => "nameAndId"

def label : QueryPart → String
  | .whole => "Whole"
  | .count => "Count"
  | .nameAndId => "NameAndId"

def ofKey? (key : String) : Option QueryPart := all.find? (·.key == key)

end QueryPart

namespace QueryRange

def every : List QueryRange := [.all, .filtered, .paginated, .byId]

def key : QueryRange → String
  | .all => "all"
  | .filtered => "filtered"
  | .paginated => "paginated"
  | .byId => "id"

def label : QueryRange → String
  | .all => "All"
  | .filtered => "Filtered"
  | .paginated => "Paginated"
  | .byId => "Id"

def ofKey? (key : String) : Option QueryRange := every.find? (·.key == key)

/-- The parts a range offers: the count of one page or of one record says nothing new. -/
def parts : QueryRange → List QueryPart
  | .all | .filtered => [.whole, .count, .nameAndId]
  | .paginated => [.whole, .nameAndId]
  | .byId => [.whole]

end QueryRange

/-- What a mutation does to a record. -/
inductive Action where
  | create
  | update
  | delete
deriving DecidableEq, Repr, Inhabited

namespace Action

def all : List Action := [.create, .update, .delete]

def key : Action → String
  | .create => "create"
  | .update => "update"
  | .delete => "delete"

def ofKey? (key : String) : Option Action := all.find? (·.key == key)

end Action

/-- Whether a mutation takes one item or a list of them. -/
inductive Target where
  | single
  | multi
deriving DecidableEq, Repr, Inhabited

namespace Target

def all : List Target := [.single, .multi]

def key : Target → String
  | .single => "single"
  | .multi => "multi"

def ofKey? (key : String) : Option Target := all.find? (·.key == key)

end Target

/-- The mutations that take an input object. -/
inductive InputAction where
  | create
  | update
deriving DecidableEq, Repr, Inhabited

namespace InputAction

def all : List InputAction := [.create, .update]

def key : InputAction → String
  | .create => "create"
  | .update => "update"

def label : InputAction → String
  | .create => "Create"
  | .update => "Update"

end InputAction

def Action.input? : Action → Option InputAction
  | .create => some .create
  | .update => some .update
  | .delete => none

end ResourceApi
