import ResourceApi.Entries
import ResourceApi.Number.Binary64

/-!
# JSON values

Records, options, filters and arguments are JSON values.  Objects keep the order in which their
members were written; integers are exact and differ from floats of the same value.  `equal` is the
equality of values: the order of object members does not count, and the two float zeros are equal.
-/

namespace ResourceApi

inductive Json where
  | null
  | bool (value : Bool)
  | int (value : Int)
  | float (value : Number.Binary64)
  | str (text : String)
  | arr (items : List Json)
  | obj (members : List (String × Json))
deriving Inhabited

namespace Json

/-! ## Equality -/

mutual

/-- Equality of values. -/
def equal : Json → Json → Bool
  | .null, .null => true
  | .bool x, .bool y => x == y
  | .int x, .int y => x == y
  | .float x, .float y => x.equal y
  | .str x, .str y => x == y
  | .arr xs, .arr ys => equalItems xs ys
  | .obj xs, .obj ys => xs.length == ys.length && equalMembers xs ys
  | _, _ => false

def equalItems : List Json → List Json → Bool
  | [], [] => true
  | x :: xs, y :: ys => equal x y && equalItems xs ys
  | _, _ => false

/-- Every member on the left is on the right with an equal value. -/
def equalMembers : List (String × Json) → List (String × Json) → Bool
  | [], _ => true
  | (key, x) :: rest, ys =>
    (match ys.lookup key with
      | some y => equal x y
      | none => false) && equalMembers rest ys

end

instance : BEq Json := ⟨equal⟩

/-! ## Repeated names -/

mutual

/-- The value with every name once in an object: the last value of a name, in the place of the
first. -/
def distinct : Json → Json
  | .arr items => .arr (distinctItems items)
  | .obj members => .obj (Entries.ofList (distinctMembers members))
  | value => value

def distinctItems : List Json → List Json
  | [] => []
  | value :: rest => distinct value :: distinctItems rest

def distinctMembers : List (String × Json) → List (String × Json)
  | [] => []
  | (key, value) :: rest => (key, distinct value) :: distinctMembers rest

end

/-! ## Views -/

def isNull : Json → Bool
  | .null => true
  | _ => false

def isObject : Json → Bool
  | .obj _ => true
  | _ => false

def isArray : Json → Bool
  | .arr _ => true
  | _ => false

def bool? : Json → Option Bool
  | .bool value => some value
  | _ => none

def str? : Json → Option String
  | .str text => some text
  | _ => none

def items? : Json → Option (List Json)
  | .arr items => some items
  | _ => none

def members? : Json → Option (Entries Json)
  | .obj members => some members
  | _ => none

/-- Integers of 64 bits reach up to `2 ^ 63` with a sign and up to `2 ^ 64` without. -/
abbrev signedBound : Nat := 0x8000000000000000

abbrev unsignedBound : Nat := 0x10000000000000000

/-- Integers in the signed 64-bit range. -/
def signed? : Json → Option Int
  | .int value => if -(signedBound : Int) ≤ value && value < signedBound then some value else none
  | _ => none

/-- Integers in the unsigned 64-bit range. -/
def unsigned? : Json → Option Nat
  | .int (.ofNat value) => if value < unsignedBound then some value else none
  | _ => none

/-- The member `key` of an object. -/
def get? : Json → String → Option Json
  | .obj members, key => members.lookup key
  | _, _ => none

/-- The member `key` of an object, null when there is none. -/
def get (value : Json) (key : String) : Json := (value.get? key).getD .null

def ofNat (n : Nat) : Json := .int n

def ofOption (f : α → Json) : Option α → Json
  | some value => f value
  | none => .null

def strings (texts : List String) : Json := .arr (texts.map .str)

def bools (flags : List Bool) : Json := .arr (flags.map .bool)

/-- The order of two scalars of one kind; numbers compare as floats, values of different kinds and
all other values do not compare. -/
def order? : Json → Json → Option Ordering
  | .str x, .str y => some (compare x y)
  | .bool x, .bool y => some (compare x.toNat y.toNat)
  | x, y => return (← number? x).order (← number? y)
where
  /-- A number as a float: integers are rounded to 53 significant bits. -/
  number? : Json → Option Number.Dyadic
    | .int value => some ⟨Number.roundInt value, 0⟩
    | .float value => some value.toDyadic
    | _ => none

end Json
end ResourceApi
