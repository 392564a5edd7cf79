import ResourceApi.Resolver.Segment

/-!
# Query resolvers

A query reads the records of one resource that its segment shows to the caller and that its arguments
select, and returns them whole, counted, or as names and identifiers.
-/

namespace ResourceApi

/-- The pagination argument: a page number from one on, a page size and sort keys. -/
structure Pagination where
  page : Nat
  limit : Nat
  sort : List SortKey
deriving DecidableEq, Repr

namespace Pagination

def maxCount : Nat := Json.unsignedBound - 1

def positive (input : Json) (key : String) : Except ResolveError Nat :=
  match (input.get? key).bind Json.unsigned? with
  | some (n + 1) => .ok (n + 1)
  | _ => .error (.badArgument (.paginationNotPositive key))

def ofArguments (arguments : Json) : Except ResolveError Pagination :=
  match arguments.get? "pagination" with
  | some (.obj members) => do
    let input := Json.obj members
    return {
      page := ← positive input "page"
      limit := ← positive input "limit"
      sort := SortKey.ofDocument (input.get "sort") }
  | _ => .error (.badArgument .paginationMissing)

/-- The number of records before the page; it does not grow beyond 64 bits. -/
def skip (pagination : Pagination) : Nat :=
  min ((pagination.page - 1) * pagination.limit) maxCount

end Pagination

/-- The resolver of a query.  `projection` are the fields of whole records; `label` is the field that
is reported as the name of a record. -/
structure QueryResolver where
  resource : String
  range : QueryRange
  segment : Segment
  part : QueryPart
  projection : List String
  label : Option String
deriving DecidableEq, Repr

namespace QueryResolver

/-- The field that names a record in answers of names and identifiers. -/
def nameField : String := "name"

/-- The filter that the arguments ask for. -/
def rangeFilter (range : QueryRange) (arguments : Json) : Except ResolveError Json :=
  match range with
  | .all => .ok (.obj [])
  | .filtered | .paginated =>
    match arguments.get? "filter" with
    | none | some .null => .ok (.obj [])
    | some (.obj members) => .ok (.obj members)
    | some _ => .error (.badArgument .filterNotObject)
  | .byId =>
    match (arguments.get? idField).bind Json.str? with
    | some id => .ok (.obj [(idField, .str id)])
    | none => .error (.badArgument .idMissing)

/-- The filter of a call: what the segment shows and the arguments ask for. -/
def filter (resolver : QueryResolver) (caller : Option String) (arguments : Json) :
    Except ResolveError Json := do
  let visible ← resolver.segment.filter? caller
  let asked ← rangeFilter resolver.range arguments
  return Filter.both visible asked

/-- The fields read from the store. -/
def fields (resolver : QueryResolver) : List String :=
  match resolver.part with
  | .nameAndId => idField :: resolver.label.toList
  | _ => resolver.projection

/-- A record as its name and identifier. -/
def nameAndIdOf (label : Option String) (record : Json) : Json :=
  .obj [(idField, record.get idField),
    (nameField, (label.bind fun field ↦ record.get? field).getD .null)]

def shape (resolver : QueryResolver) (records : List Json) : Json :=
  .arr (if resolver.part == .nameAndId then records.map (nameAndIdOf resolver.label) else records)

def pageJson (pagination : Pagination) (records : List Json) (total : Nat) : Json :=
  .obj [("docs", .arr records), ("total", .ofNat total), ("page", .ofNat pagination.page),
    ("limit", .ofNat pagination.limit)]

/-- Runs the query on a store under the filter of the call. -/
def answer (resolver : QueryResolver) (store : Store) (filter arguments : Json) :
    Except ResolveError Json :=
  let options : Store.FindOptions := { Store.FindOptions.everything with projection := resolver.fields }
  let find := fun options ↦ store.find resolver.resource filter options
  if resolver.part == .count then .ok (.ofNat (store.count resolver.resource filter))
  else match resolver.range with
    | .byId => .ok ((find { options with limit := some 1 }).head?.getD .null)
    | .paginated => do
      let pagination ← Pagination.ofArguments arguments
      let records := find { options with
        skip := pagination.skip, limit := some pagination.limit, sort := pagination.sort }
      if resolver.part == .whole then
        return pageJson pagination records (store.count resolver.resource filter)
      else return resolver.shape records
    | .all | .filtered => .ok (resolver.shape (find options))

def resolve (resolver : QueryResolver) (context : RequestContext) (arguments : Json) :
    Except ResolveError Json := do
  let filter ← resolver.filter context.caller arguments
  context.requireStore resolver.resource
  resolver.answer context.store filter arguments

end QueryResolver
end ResourceApi
