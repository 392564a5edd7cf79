import ResourceApi.Json

/-!
# Tables of TOML documents

A document is a list of statements that fill a tree of tables.  A table is defined once: by its own
header, or by the dotted keys of one table; a header may also pass through tables that are not defined
yet.  Values, arrays and inline tables among them, are complete as they are written.  Read as a JSON
value, a table has its members in the order of their names.
-/

namespace ResourceApi.Toml

/-- How a table came to be: by a header of its own, as a stage of the header of a deeper table, or by
dotted keys. -/
inductive Origin where
  | header
  | stage
  | dotted
deriving DecidableEq, Repr

/-- What a key stands for.  The tables of a list of tables are held last first. -/
inductive Node where
  | value (value : Json)
  | table (origin : Origin) (members : List (String × Node))
  | tables (items : List (List (String × Node)))

abbrev Table := List (String × Node)

inductive Statement where
  | pair (path : List String) (key : String) (value : Json)
  | header (path : List String) (key : String)
  | item (path : List String) (key : String)

namespace Table

/-- Changes the table at a path; the tables on the way are made if they are not there, with the given
origin.  Dotted keys do not lead into a table that has its own header. -/
def within (origin : Origin) (change : Origin → Table → Option Table) :
    List String → Origin → Table → Option Table
  | [], own, table => change own table
  | key :: rest, _, table =>
    match Entries.get? table key with
    | none => do
      let inner ← within origin change rest origin []
      return Entries.put key (.table origin inner) table
    | some (.table own inner) => do
      if origin == .dotted && own == .header then failure
      let inner ← within origin change rest own inner
      return Entries.put key (.table own inner) table
    | some (.tables (last :: before)) => do
      let last ← within origin change rest .header last
      return Entries.put key (.tables (last :: before)) table
    | some _ => none

/-- Adds a value under a new key.  Keys of one part belong to tables with headers, longer ones to
tables made by dotted keys. -/
def addPair (path : List String) (key : String) (value : Json) : Table → Option Table :=
  within .dotted (fun own table ↦
    if (own == .dotted) == path.isEmpty || Entries.has table key then none
    else some (table ++ [(key, .value value)])) path .header

/-- Opens a table by its header; one that was only passed through so far may be opened. -/
def openTable (path : List String) (key : String) : Table → Option Table :=
  within .stage (fun _ table ↦
    match Entries.get? table key with
    | none => some (table ++ [(key, .table .header [])])
    | some (.table .stage inner) => some (Entries.put key (.table .header inner) table)
    | some _ => none) path .header

/-- Opens the next table of a list of tables. -/
def openItem (path : List String) (key : String) : Table → Option Table :=
  within .stage (fun _ table ↦
    match Entries.get? table key with
    | none => some (table ++ [(key, .tables [[]])])
    | some (.tables items) => some (Entries.put key (.tables ([] :: items)) table)
    | some _ => none) path .header

/-- Runs a statement on a document whose open table is at `current`. -/
def run (current : List String) (document : Table) :
    Statement → Option (List String × Table)
  | .pair path key value => do
    let document ← within .stage (fun _ table ↦ addPair path key value table) current .header
      document
    return (current, document)
  | .header path key => do return (path ++ [key], ← openTable path key document)
  | .item path key => do return (path ++ [key], ← openItem path key document)

def ofStatements (statements : List Statement) : Option Table := do
  let (_, document) ← statements.foldlM
    (fun (current, document) statement ↦ run current document statement) ([], [])
  return document

end Table

/-! ## JSON values -/

def sortMembers (members : List (String × Json)) : List (String × Json) :=
  members.mergeSort fun (a, _) (b, _) ↦ a ≤ b

mutual

def Node.toJson : Node → Json
  | .value value => value
  | .table _ members => .obj (sortMembers (membersToJson members))
  | .tables items => .arr (itemsToJson items).reverse

def membersToJson : List (String × Node) → List (String × Json)
  | [] => []
  | (key, node) :: rest => (key, node.toJson) :: membersToJson rest

def itemsToJson : List (List (String × Node)) → List Json
  | [] => []
  | members :: rest => .obj (sortMembers (membersToJson members)) :: itemsToJson rest

end

def Table.toJson (table : Table) : Json := (Node.table .header table).toJson

end ResourceApi.Toml
