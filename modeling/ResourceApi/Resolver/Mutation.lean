import ResourceApi.Options.Axes
import ResourceApi.Path
import ResourceApi.Resolver.Context
import ResourceApi.Scalar

/-!
# Mutation resolvers

A mutation calls the store once per item.  A value that its scalar refuses rejects the mutation before
anything is written.  A failure about ownership, a missing record or a unique value is reported for
its item, whose data is null, and the other items go on; any other failure ends the mutation.
-/

namespace ResourceApi

/-- A position in the items of a mutation whose values have to satisfy a scalar. -/
structure ScalarCheck where
  path : List String
  scalar : String
deriving DecidableEq, Repr

namespace ScalarCheck

mutual

/-- The values at a path below a value; lists on the way are looked through. -/
def valuesAt (path : List String) : Json → List Json
  | .arr items => valuesAtItems path items
  | .obj members =>
    match path with
    | [] => [.obj members]
    | segment :: rest => valuesAtMember segment rest members
  | value => if path.isEmpty then [value] else []

def valuesAtItems (path : List String) : List Json → List Json
  | [] => []
  | value :: rest => valuesAt path value ++ valuesAtItems path rest

/-- The values below the first member of a name. -/
def valuesAtMember (segment : String) (path : List String) : List (String × Json) → List Json
  | [] => []
  | (name, value) :: rest =>
    if segment == name then valuesAt path value else valuesAtMember segment path rest

end

/-- The item has a value at the path that the scalar refuses. -/
def fails (check : ScalarCheck) (scalars : ScalarRegistry) (item : Json) : Bool :=
  (valuesAt check.path item).any fun value ↦ !scalars.accepts check.scalar value

end ScalarCheck

/-- What a mutation returns: a record or a list of records, and the failures of single items. -/
structure MutationOutcome where
  data : Json
  errors : List ReportedError

structure MutationResolver where
  model : ModelHandle
  action : Action
  target : Target
  checks : List ScalarCheck
  scalars : ScalarRegistry

namespace MutationResolver

/-- The argument that holds the items. -/
def argument (resolver : MutationResolver) : String :=
  match resolver.action, resolver.target with
  | .delete, .single => "id"
  | .delete, .multi => "ids"
  | _, _ => "data"

def items (resolver : MutationResolver) (arguments : Json) : Except ResolveError (List Json) :=
  match arguments.get? resolver.argument, resolver.target with
  | none, _ | some .null, _ => .error (.badArgument (.missing resolver.argument))
  | some item, .single => .ok [item]
  | some (.arr items), .multi => .ok items
  | some _, .multi => .error (.badArgument (.notList resolver.argument))

/-- The first check that an item fails. -/
def failingCheck? (resolver : MutationResolver) (item : Json) : Option ScalarCheck :=
  resolver.checks.find? fun check ↦ check.fails resolver.scalars item

/-- Checks the items from a position on. -/
def validateFrom (resolver : MutationResolver) (index : Nat) :
    List Json → Except ResolveError Unit
  | [] => .ok ()
  | item :: rest =>
    match resolver.failingCheck? item with
    | some check =>
      .error (.validation (.refusedScalar index (Path.join check.path) check.scalar))
    | none => resolver.validateFrom (index + 1) rest

def validate (resolver : MutationResolver) (items : List Json) : Except ResolveError Unit :=
  resolver.validateFrom 0 items

/-- The store call for one item. -/
def access (resolver : MutationResolver) (freshId caller : String) (item : Json) : Store.Access Json :=
  match resolver.action with
  | .create => Store.Access.create resolver.model freshId item caller
  | .update => Store.Access.update resolver.model item caller
  | .delete =>
    match item with
    | .str id => Store.Access.delete resolver.model id caller
    | _ => throw (.invalidRecord .idNotString)

def isReportable (error : StorageError) : Bool :=
  error.isNotOwner || error.isNotFound || error.isAlreadyExists

/-- Store, data and failures after some of the items, and the error that ended the mutation, if one
did. -/
structure Progress where
  store : Store
  data : List Json
  errors : List ReportedError
  ended : Option StorageError

/-- Applies the items from a position on; `ids` gives the fresh identifier for each position. -/
def applyFrom (resolver : MutationResolver) (ids : Nat → String) (caller : String) (index : Nat)
    (progress : Progress) : List Json → Progress
  | [] => progress
  | item :: rest =>
    match (resolver.access (ids index) caller item).run.run progress.store with
    | (.ok record, store) =>
      resolver.applyFrom ids caller (index + 1)
        { progress with store := store, data := progress.data ++ [record] } rest
    | (.error error, store) =>
      if isReportable error then
        resolver.applyFrom ids caller (index + 1)
          { progress with
            store := store
            data := progress.data ++ [.null]
            errors := progress.errors ++ [.of index (.ofStorage error)] } rest
      else { progress with store := store, ended := some error }

/-- A record for a single target, a list for several. -/
def dataOf (resolver : MutationResolver) (data : List Json) : Json :=
  match resolver.target with
  | .single => data.head?.getD .null
  | .multi => .arr data

/-- Applies the items in turn.  An error that ends the mutation leaves the items before it
applied. -/
def run (resolver : MutationResolver) (ids : Nat → String) (caller : String) (store : Store)
    (items : List Json) : Store × Except ResolveError MutationOutcome :=
  let progress := resolver.applyFrom ids caller 0 ⟨store, [], [], none⟩ items
  match progress.ended with
  | some error => (progress.store, .error (.ofStorage error))
  | none => (progress.store, .ok ⟨resolver.dataOf progress.data, progress.errors⟩)

/-- The items of a call that may be applied, with the caller. -/
def prepare (resolver : MutationResolver) (context : RequestContext) (arguments : Json) :
    Except ResolveError (String × List Json) := do
  let caller ← context.requireCaller
  let items ← resolver.items arguments
  if resolver.action != .delete then resolver.validate items
  return (caller, items)

/-- The store after the call, and what the call returns. -/
def resolve (resolver : MutationResolver) (ids : Nat → String) (context : RequestContext)
    (arguments : Json) : Store × Except ResolveError MutationOutcome :=
  match resolver.prepare context arguments with
  | .ok (caller, items) => resolver.run ids caller context.store items
  | .error error => (context.store, .error error)

end MutationResolver
end ResourceApi
