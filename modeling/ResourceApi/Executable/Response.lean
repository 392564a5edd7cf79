import ResourceApi.Resolver.Mutation

/-!
# Responses

What a request that was run answers: its data, and the errors met on the way in the order in which
they were met.
-/

namespace ResourceApi

/-- Why a field has no value. -/
inductive FieldFault where
  | contextMissing
  | refused (error : ResolveError)
  | nullValue
  | notList
  | invalidScalar (name : String)
  | invalidEnum (name : String)
  | invalidUnion (name : String)
deriving DecidableEq, Repr

namespace FieldFault

def message : FieldFault → String
  | .contextMissing => "Request context not available"
  | .refused error => error.message
  | .nullValue => "internal: non-null types require a return value"
  | .notList => "internal: expects an array"
  | .invalidScalar name =>
    "internal: invalid value for scalar \"" ++ name ++ "\", expected \"FieldValue::Value\""
  | .invalidEnum name => "internal: invalid item for enum \"" ++ name ++ "\""
  | .invalidUnion name =>
    "internal: invalid value for union \"" ++ name ++ "\", expected \"FieldValue::WithType\""

def code? : FieldFault → Option String
  | .refused error => some error.code
  | _ => none

end FieldFault

/-- An error of a response: that of a field, or that of an item of a mutation. -/
inductive ResponseError where
  | field (fault : FieldFault)
  | item (error : ReportedError)
deriving DecidableEq, Repr

namespace ResponseError

def code? : ResponseError → Option String
  | .field fault => fault.code?
  | .item error => some error.code

def index? : ResponseError → Option Nat
  | .field _ => none
  | .item error => some error.index

def message : ResponseError → String
  | .field fault => fault.message
  | .item error => error.message

end ResponseError

structure Response where
  data : Json
  errors : List ResponseError

namespace Response

/-! ## Merging -/

mutual

/-- What two values under one name come to: objects are merged member by member, lists item by item,
and anything else stays as it was. -/
def mergeValue : Json → Json → Json
  | .obj members, .obj more => .obj (mergeMembers members more)
  | .arr items, .arr more => .arr (mergeItems items more)
  | value, _ => value

def mergeMembers : List (String × Json) → List (String × Json) → List (String × Json)
  | [], more => more
  | (name, value) :: rest, more =>
    match more.lookup name with
    | some other => (name, mergeValue value other) :: mergeMembers rest (Entries.erase name more)
    | none => (name, value) :: mergeMembers rest more

/-- Items that are objects on both sides are merged; the others stay. -/
def mergeItems : List Json → List Json → List Json
  | .obj members :: rest, .obj more :: others =>
    .obj (mergeMembers members more) :: mergeItems rest others
  | item :: rest, _ :: others => item :: mergeItems rest others
  | items, [] => items
  | [], _ => []

end

/-- Reports a value under a name; a name that is taken merges. -/
def report (name : String) (value : Json) (fields : Entries Json) : Entries Json :=
  match fields.get? name with
  | some before => Entries.put name (mergeValue before value) fields
  | none => fields ++ [(name, value)]

/-- The fields of an object; one that reports nothing is null. -/
def ofFields (fields : Entries Json) : Json := if fields.isEmpty then .null else .obj fields

end Response
end ResourceApi
