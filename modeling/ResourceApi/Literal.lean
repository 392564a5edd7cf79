import ResourceApi.Json.Printer

/-!
# Literals

Values as they are written in type documents and requests.  They are JSON values together with enum
values, which are bare names, and variables.  `render` is the written form.
-/

namespace ResourceApi

inductive Literal where
  | null
  | bool (value : Bool)
  | int (value : Int)
  | float (value : Number.Binary64)
  | str (text : String)
  | enumeration (name : String)
  | list (items : List Literal)
  | object (members : List (String × Literal))
  | variable (name : String)
deriving Inhabited

namespace Literal

/-! ## The written form -/

/-- Control characters other than line ends and tabs are written with four decimal digits. -/
def escape (c : Char) : List Char :=
  if c == '\r' then ['\\', 'r']
  else if c == '\n' then ['\\', 'n']
  else if c == '\t' then ['\\', 't']
  else if c == '"' then ['\\', '"']
  else if c == '\\' then ['\\', '\\']
  else if c.toNat < 0x20 || (0x7f ≤ c.toNat && c.toNat < 0xa0) then
    let code := c.toNat
    ['\\', 'u', '0', Nat.digitChar (code / 100), Nat.digitChar (code / 10 % 10),
      Nat.digitChar (code % 10)]
  else [c]

def quote (text : String) : String :=
  "\"" ++ String.ofList (text.toList.flatMap escape) ++ "\""

mutual

def render : Literal → String
  | .null => "null"
  | .bool true => "true"
  | .bool false => "false"
  | .int value => toString value
  | .float value => value.render
  | .str text => quote text
  | .enumeration name => name
  | .list items => "[" ++ ", ".intercalate (renderItems items) ++ "]"
  | .object members => "\x7b" ++ ", ".intercalate (renderMembers members) ++ "\x7d"
  | .variable name => "$" ++ name

def renderItems : List Literal → List String
  | [] => []
  | value :: rest => value.render :: renderItems rest

def renderMembers : List (String × Literal) → List String
  | [] => []
  | (name, value) :: rest => (name ++ ": " ++ value.render) :: renderMembers rest

end

/-! ## Values -/

mutual

/-- The JSON value of a literal; enum values are strings, and a variable without a value is null. -/
def toJson (values : Entries Json) : Literal → Json
  | .null => .null
  | .bool value => .bool value
  | .int value => .int value
  | .float value => .float value
  | .str text => .str text
  | .enumeration name => .str name
  | .list items => .arr (toJsonItems values items)
  | .object members => .obj (toJsonMembers values members)
  | .variable name => (values.get? name).getD .null

def toJsonItems (values : Entries Json) : List Literal → List Json
  | [] => []
  | value :: rest => value.toJson values :: toJsonItems values rest

def toJsonMembers (values : Entries Json) : List (String × Literal) → List (String × Json)
  | [] => []
  | (name, value) :: rest => (name, value.toJson values) :: toJsonMembers values rest

end

mutual

/-- The literal of a JSON value, which has no enum values. -/
def ofJson : Json → Literal
  | .null => .null
  | .bool value => .bool value
  | .int value => .int value
  | .float value => .float value
  | .str text => .str text
  | .arr items => .list (ofJsonItems items)
  | .obj members => .object (ofJsonMembers members)

def ofJsonItems : List Json → List Literal
  | [] => []
  | value :: rest => ofJson value :: ofJsonItems rest

def ofJsonMembers : List (String × Json) → List (String × Literal)
  | [] => []
  | (name, value) :: rest => (name, ofJson value) :: ofJsonMembers rest

end

/-! ## Variables -/

mutual

/-- The literal with values in the place of its variables, if all of them have one. -/
def instantiate (values : Entries Json) : Literal → Option Literal
  | .list items => (instantiateItems values items).map .list
  | .object members => (instantiateMembers values members).map .object
  | .variable name => (values.get? name).map ofJson
  | value => some value

def instantiateItems (values : Entries Json) : List Literal → Option (List Literal)
  | [] => some []
  | value :: rest => do
    let value ← value.instantiate values
    return value :: (← instantiateItems values rest)

def instantiateMembers (values : Entries Json) :
    List (String × Literal) → Option (List (String × Literal))
  | [] => some []
  | (name, value) :: rest => do
    let value ← value.instantiate values
    return (name, value) :: (← instantiateMembers values rest)

end

mutual

/-- The variables in a literal. -/
def variablesIn : Literal → List String
  | .list items => variablesInItems items
  | .object members => variablesInMembers members
  | .variable name => [name]
  | _ => []

def variablesInItems : List Literal → List String
  | [] => []
  | value :: rest => value.variablesIn ++ variablesInItems rest

def variablesInMembers : List (String × Literal) → List String
  | [] => []
  | (_, value) :: rest => value.variablesIn ++ variablesInMembers rest

end

/-! ## Equality -/

mutual

/-- Equality of literals: numbers as they are written, objects without regard to order. -/
def equal : Literal → Literal → Bool
  | .null, .null => true
  | .bool x, .bool y => x == y
  | .int x, .int y => x == y
  | .float x, .float y => x.equal y
  | .str x, .str y => x == y
  | .enumeration x, .enumeration y => x == y
  | .variable x, .variable y => x == y
  | .list xs, .list ys => equalItems xs ys
  | .object xs, .object ys => xs.length == ys.length && equalMembers xs ys
  | _, _ => false

def equalItems : List Literal → List Literal → Bool
  | [], [] => true
  | x :: xs, y :: ys => equal x y && equalItems xs ys
  | _, _ => false

/-- Every member on the left is on the right with an equal value. -/
def equalMembers : List (String × Literal) → List (String × Literal) → Bool
  | [], _ => true
  | (name, x) :: rest, ys =>
    (match ys.lookup name with
      | some y => equal x y
      | none => false) && equalMembers rest ys

end

end Literal
end ResourceApi
