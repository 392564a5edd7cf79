import ResourceApi.Resolver.Segment

/-!
# Field resolvers

A field of an object either is read off its record or refers to records of another resource.  A
reference keeps the list structure of the stored value and puts, in the place of each identifier, the
record it names, or null when there is none or the segment does not show it.  A record that is
embedded counts as its identifier.
-/

namespace ResourceApi

inductive FieldResolver where
  | reference (resource : String) (segment : Segment)
  | projection
deriving DecidableEq, Repr

namespace FieldResolver

/-- The identifier that a record carries. -/
def embeddedId? (members : List (String × Json)) : Option String :=
  (Entries.get? members idField).bind Json.str?

mutual

/-- The identifiers in a value, depth first. -/
def collectIds : Json → List String
  | .str id => [id]
  | .obj members => (embeddedId? members).toList
  | .arr items => collectIdsItems items
  | _ => []

def collectIdsItems : List Json → List String
  | [] => []
  | value :: rest => collectIds value ++ collectIdsItems rest

end

/-- Takes the next record, if there is one. -/
def takeNext (records : List Json) : Json × List Json :=
  match records with
  | record :: rest => (record, rest)
  | [] => (.null, [])

mutual

/-- Puts the next record in the place of each identifier; what is left of the records is returned. -/
def rebuild (records : List Json) : Json → Json × List Json
  | .arr items =>
    let (items, rest) := rebuildItems records items
    (.arr items, rest)
  | .str _ => takeNext records
  | .obj members => if (embeddedId? members).isSome then takeNext records else (.null, records)
  | _ => (.null, records)

def rebuildItems (records : List Json) : List Json → List Json × List Json
  | [] => ([], records)
  | value :: more =>
    let (value, records) := rebuild records value
    let (values, records) := rebuildItems records more
    (value :: values, records)

end

/-- The record that a reference shows for what was found under an identifier. -/
def shown (segment : Segment) (caller : Option String) (found : Option Json) : Json :=
  (found.filter fun record ↦ segment.allows record caller).getD .null

/-- Resolves a field of a record.  A value without identifiers is returned as it is. -/
def resolve (resolver : FieldResolver) (context : RequestContext) (parent : Json)
    (field : String) : Except ResolveError Json :=
  let value := parent.get field
  match resolver with
  | .projection => .ok value
  | .reference resource segment =>
    match collectIds value with
    | [] => .ok value
    | id :: ids => do
      context.requireStore resource
      let found := context.store.findByIds resource (id :: ids)
      return (rebuild (found.map (shown segment context.caller)) value).1

end FieldResolver
end ResourceApi
