/-!
# Storage errors

Why a storage call is refused, with the text and the category of each cause.
-/

namespace ResourceApi

/-- What is wrong with a payload or a record. -/
inductive RecordFault where
  | missingId
  | payloadNotObject
  | updateWithoutId
  | idNotString
deriving DecidableEq, Repr

def RecordFault.message : RecordFault → String
  | .missingId => "record is missing a string \x60id\x60"
  | .payloadNotObject => "payload must be an object"
  | .updateWithoutId => "update payload is missing \x60id\x60"
  | .idNotString => "id must be a string"

/-- The value of a clash is its text: JSON, or the bare identifier. -/
inductive StorageError where
  | notFound (resource id : String)
  | alreadyExists (resource field value : String)
  | notOwner (resource id : String)
  | invalidRecord (fault : RecordFault)
deriving DecidableEq, Repr

namespace StorageError

def message : StorageError → String
  | .notFound resource id => s!"Record not found: {resource}/{id}"
  | .alreadyExists resource field value =>
    s!"Duplicate value for unique field {resource}.{field}: {value}"
  | .notOwner resource id => s!"Record {resource}/{id} is not owned by the caller"
  | .invalidRecord fault => "Invalid record: " ++ fault.message

def category : StorageError → String
  | .notFound .. => "not_found"
  | .alreadyExists .. => "conflict"
  | .notOwner .. => "ownership"
  | .invalidRecord _ => "validation"

def isNotFound : StorageError → Bool
  | .notFound .. => true
  | _ => false

def isNotOwner : StorageError → Bool
  | .notOwner .. => true
  | _ => false

def isAlreadyExists : StorageError → Bool
  | .alreadyExists .. => true
  | _ => false

end StorageError
end ResourceApi
