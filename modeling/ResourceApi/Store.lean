import ResourceApi.Json.Printer
import ResourceApi.Store.Error
import ResourceApi.Store.Sort

/-!
# The record store

A store holds one insertion-ordered collection of records per resource, keyed by identifier.  Creating
a record stamps its owner; updating and deleting ask for the owner; values of unique fields occur once
among the records of a resource.

A call is an access: it runs on the store itself, step after step, and may be refused at one of them.  It
leaves the store as it is by then; nothing is taken back.
-/

namespace ResourceApi

def idField : String := "id"

def ownerField : String := "owner"

/-- The resource a call is about and the fields whose values are unique in it. -/
structure ModelHandle where
  resource : String
  unique : List String
deriving DecidableEq, Repr

/-- The records of one resource by identifier. -/
abbrev Collection := Entries Json

structure Store where
  collections : Entries Collection

namespace Store

def empty : Store := ⟨[]⟩

def collection (store : Store) (resource : String) : Collection :=
  (store.collections.get? resource).getD []

def records (store : Store) (resource : String) : List Json := (store.collection resource).values

def find? (store : Store) (resource id : String) : Option Json :=
  (store.collection resource).get? id

/-- The store with another collection for a resource. -/
def setCollection (store : Store) (resource : String) (collection : Collection) : Store :=
  ⟨Entries.put resource collection store.collections⟩

/-! ## Conditions -/

def isOwnedBy (record : Json) (caller : String) : Bool :=
  (record.get? ownerField).bind Json.str? == some caller

/-- Another record holds the value of a field. -/
def clashes (collection : Collection) (id field : String) (value : Json) : Bool :=
  collection.any fun (other, record) ↦
    other != id && match record.get? field with
      | some held => held.equal value
      | none => false

/-- The first unique field whose value another record holds, with that value; null never clashes. -/
def clash? (model : ModelHandle) (collection : Collection) (id : String) (candidate : Json) :
    Option (String × Json) :=
  model.unique.findSome? fun field ↦
    match candidate.get? field with
    | none | some .null => none
    | some value => if clashes collection id field value then some (field, value) else none

def checkUnique (store : Store) (model : ModelHandle) (id : String) (candidate : Json) :
    Except StorageError Unit :=
  match clash? model (store.collection model.resource) id candidate with
  | some (field, value) => .error (.alreadyExists model.resource field value.compact)
  | none => .ok ()

/-- The identifier that a payload brings, or else the fresh one. -/
def idFor (freshId : String) (payload : Entries Json) : String :=
  ((payload.get? idField).bind Json.str?).getD freshId

/-- The record that is made of a payload: with its identifier and its owner. -/
def stamped (id caller : String) (members : Entries Json) : Json :=
  .obj (Entries.put ownerField (.str caller) (Entries.put idField (.str id) members))

/-- The record with the given changes; its owner stays. -/
def applyChanges (record : Json) (changes : Entries Json) : Json :=
  match record with
  | .obj members => .obj (changes.foldl (fun members (key, value) ↦
      if key == ownerField then members else Entries.put key value members) members)
  | other => other

/-! ## Accesses -/

/-- A computation on the store that may be refused. -/
abbrev Access := ExceptT StorageError (StateM Store)

namespace Access

/-- The collection of a resource, which is made if there is none. -/
def openCollection (resource : String) : Access Collection := do
  match (← get).collections.get? resource with
  | some collection => return collection
  | none =>
    modify (·.setCollection resource [])
    return []

/-- Writes a record into the collection of a resource, in the place of the one with its identifier, or
else at the end. -/
def put (resource id : String) (record : Json) : Access Unit := do
  let collection ← openCollection resource
  modify (·.setCollection resource (Entries.put id record collection))

/-- Takes a record out of a collection. -/
def take (resource id : String) (collection : Collection) : Access Json := do
  match collection.get? id with
  | some record =>
    modify (·.setCollection resource (Entries.erase id collection))
    return record
  | none => throw (.notFound resource id)

def checkOwner (resource id : String) (record : Json) (caller : String) : Access Unit := do
  if !isOwnedBy record caller then throw (.notOwner resource id)

/-- Writes a record as it is, whoever owns it. -/
def insert (resource : String) (record : Json) : Access Unit := do
  match (record.get? idField).bind Json.str? with
  | some id => put resource id record
  | none => throw (.invalidRecord .missingId)

/-- Creates a record that the caller owns, and returns it. -/
def create (model : ModelHandle) (freshId : String) (payload : Json) (caller : String) :
    Access Json := do
  match payload with
  | .obj members =>
    let id := idFor freshId members
    let record := stamped id caller members
    if ((← get).find? model.resource id).isSome then
      throw (.alreadyExists model.resource idField id)
    MonadExcept.ofExcept ((← get).checkUnique model id record)
    put model.resource id record
    return record
  | _ => throw (.invalidRecord .payloadNotObject)

/-- Changes the record that the payload identifies, if the caller owns it, and returns it. -/
def update (model : ModelHandle) (payload : Json) (caller : String) : Access Json := do
  match payload with
  | .obj changes =>
    match (Entries.get? changes idField).bind Json.str? with
    | some id =>
      match (← get).find? model.resource id with
      | some record =>
        checkOwner model.resource id record caller
        let updated := applyChanges record changes
        MonadExcept.ofExcept ((← get).checkUnique model id updated)
        put model.resource id updated
        return updated
      | none => throw (.notFound model.resource id)
    | none => throw (.invalidRecord .updateWithoutId)
  | _ => throw (.invalidRecord .payloadNotObject)

/-- Removes a record that the caller owns, and returns it. -/
def delete (model : ModelHandle) (id caller : String) : Access Json := do
  match (← get).collections.get? model.resource with
  | some collection =>
    match collection.get? id with
    | some record =>
      checkOwner model.resource id record caller
      take model.resource id collection
    | none => throw (.notFound model.resource id)
  | none => throw (.notFound model.resource id)

/-- What an access comes to: the new store with the result, or why it was refused. -/
def outcome {α : Type} (access : Access α) (store : Store) : Except StorageError (Store × α) :=
  match access.run.run store with
  | (.ok value, next) => .ok (next, value)
  | (.error error, _) => .error error

end Access

/-! ## Calls

What the calls come to on a store. -/

def insert (store : Store) (resource : String) (record : Json) : Except StorageError Store :=
  ((Access.insert resource record).outcome store).map Prod.fst

def create (store : Store) (model : ModelHandle) (freshId : String) (payload : Json)
    (caller : String) : Except StorageError (Store × Json) :=
  (Access.create model freshId payload caller).outcome store

def update (store : Store) (model : ModelHandle) (payload : Json) (caller : String) :
    Except StorageError (Store × Json) :=
  (Access.update model payload caller).outcome store

def delete (store : Store) (model : ModelHandle) (id caller : String) :
    Except StorageError (Store × Json) :=
  (Access.delete model id caller).outcome store

/-! ## Reading -/

/-- What to read of the records that a filter accepts. -/
structure FindOptions where
  skip : Nat
  limit : Option Nat
  sort : List SortKey
  projection : Option (List String)

/-- All records, whole and in insertion order. -/
def FindOptions.everything : FindOptions := ⟨0, none, [], none⟩

/-- Keeps the given members of a record. -/
def project (fields : List String) : Json → Json
  | .obj members => .obj (members.filter fun (name, _) ↦ fields.contains name)
  | other => other

/-- The records that a filter accepts, in insertion order. -/
def accepted (store : Store) (resource : String) (filter : Json) : List Json :=
  (store.records resource).filter fun record ↦ Filter.accepts record filter

def page (options : FindOptions) (records : List Json) : List Json :=
  let rest := records.drop options.skip
  match options.limit with
  | some limit => rest.take limit
  | none => rest

def find (store : Store) (resource : String) (filter : Json) (options : FindOptions) : List Json :=
  let found := page options (SortKey.sort options.sort (store.accepted resource filter))
  match options.projection with
  | some fields => found.map (project fields)
  | none => found

def count (store : Store) (resource : String) (filter : Json) : Nat :=
  (store.accepted resource filter).length

/-- One entry per identifier, in their order. -/
def findByIds (store : Store) (resource : String) (ids : List String) : List (Option Json) :=
  ids.map (store.find? resource)

end Store
end ResourceApi
