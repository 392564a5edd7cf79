import ResourceApi.Store.Error

/-!
# Resolution errors

Why one resolver call fails, with the code and the text that a response carries.  Failures of single
items of a mutation are reported beside its data instead.
-/

namespace ResourceApi

inductive ArgumentFault where
  | paginationMissing
  | paginationNotPositive (key : String)
  | filterNotObject
  | idMissing
  | missing (name : String)
  | notList (name : String)
deriving DecidableEq, Repr

def ArgumentFault.message : ArgumentFault → String
  | .paginationMissing => "pagination is required"
  | .paginationNotPositive key => s!"pagination.{key} must be a positive integer"
  | .filterNotObject => "filter must be an object"
  | .idMissing => "id is required"
  | .missing name => s!"{name} is required"
  | .notList name => s!"{name} must be a list"

/-- A failed validation: a value that its scalar refuses, or a record the store refuses. -/
inductive ValidationFault where
  | refusedScalar (index : Nat) (path scalar : String)
  | refusedRecord (error : StorageError)
deriving DecidableEq, Repr

def ValidationFault.message : ValidationFault → String
  | .refusedScalar index path scalar => s!"item {index}: {path} is not a valid {scalar}"
  | .refusedRecord error => error.message

inductive ResolveError where
  | queryNeedsCaller (segment : String)
  | callerRequired
  | forbidden (error : StorageError)
  | notFound (resource id : String)
  | validation (fault : ValidationFault)
  | badArgument (fault : ArgumentFault)
  | storeMissing (resource : String)
deriving DecidableEq, Repr

namespace ResolveError

def code : ResolveError → String
  | .queryNeedsCaller _ | .callerRequired => "UNAUTHENTICATED"
  | .forbidden _ => "FORBIDDEN"
  | .notFound .. => "NOT_FOUND"
  | .validation _ => "VALIDATION_ERROR"
  | .badArgument _ => "BAD_ARGUMENT"
  | .storeMissing _ => "INTERNAL_ERROR"

def message : ResolveError → String
  | .queryNeedsCaller segment => s!"Unauthenticated: {segment} queries need a caller"
  | .callerRequired => "Unauthenticated: caller identity required"
  | .forbidden error => "Forbidden: " ++ error.message
  | .notFound resource id => s!"{resource}/{id} not found"
  | .validation fault => "Validation error: " ++ fault.message
  | .badArgument fault => "Bad argument: " ++ fault.message
  | .storeMissing resource => s!"Internal error: no store registered for {resource}"

/-- The resolution error that a storage error becomes. -/
def ofStorage : StorageError → ResolveError
  | .notFound resource id => .notFound resource id
  | .notOwner resource id => .forbidden (.notOwner resource id)
  | error => .validation (.refusedRecord error)

end ResolveError

/-- A failure of one item of a mutation. -/
structure ReportedError where
  index : Nat
  code : String
  message : String
deriving DecidableEq, Repr

def ReportedError.of (index : Nat) (error : ResolveError) : ReportedError :=
  ⟨index, error.code, error.message⟩

end ResourceApi
