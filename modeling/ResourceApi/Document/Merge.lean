import ResourceApi.Document

/-!
# Folding extensions

Merging folds every definition and extension of a name into the first one, which becomes a
definition.  A field whose name is there already is not added, and neither is such a member or value.
-/

namespace ResourceApi.TypeDocument

/-- Appends the fields whose names are not there yet. -/
def mergeFields (present more : List FieldDefinition) : List FieldDefinition :=
  more.foldl (fun fields field ↦
    if fields.any (·.name == field.name) then fields else fields ++ [field]) present

def fold (into definition : Definition) : Definition :=
  { into with
    fields := mergeFields into.fields definition.fields
    members := addMissing into.members definition.members
    values := addMissing into.values definition.values }

/-- Folds a definition into the one of its name, or appends it. -/
def foldInto (definition : Definition) : List Definition → List Definition
  | [] => [{ definition with extending := false }]
  | first :: rest =>
    if first.name == definition.name then fold first definition :: rest
    else first :: foldInto definition rest

def merge (document : TypeDocument) : List Definition :=
  document.foldl (fun merged definition ↦ foldInto definition merged) []

end ResourceApi.TypeDocument
