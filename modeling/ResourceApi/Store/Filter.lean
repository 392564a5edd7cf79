import ResourceApi.Json
import ResourceApi.Path

/-!
# Filters

A filter is a JSON document.  An object asks for all of its conditions; null asks for nothing, and
anything else is met by no record.  A condition is a logical operator on filters, or a dotted path with
a value to equal or with operators on the value found there.
-/

namespace ResourceApi

/-- The value at a path of members inside a record. -/
def Json.lookupIn : List String → Json → Option Json
  | [], value => some value
  | segment :: rest, value => (value.get? segment).bind (lookupIn rest)

/-- The value at a dotted path inside a record. -/
def Json.lookup (record : Json) (path : String) : Option Json :=
  Json.lookupIn (Path.segments path) record

namespace Filter

/-- A missing value equals null, and a list equals each of its items as well as itself. -/
def equals (found : Option Json) (expected : Json) : Bool :=
  match found with
  | none => expected.isNull
  | some (.arr items) =>
    if expected.isArray then Json.equal (.arr items) expected
    else items.any fun item ↦ item.equal expected
  | some value => value.equal expected

def compareTo (found : Option Json) (argument : Json) : Option Ordering :=
  found.bind fun value ↦ value.order? argument

/-- An operator on the value found at a path; an unknown operator is never met. -/
def applyOperator (found : Option Json) (operator : String) (argument : Json) : Bool :=
  match operator with
  | "$eq" => equals found argument
  | "$ne" => !equals found argument
  | "$in" => match argument with
    | .arr candidates => candidates.any (equals found)
    | _ => false
  | "$nin" => match argument with
    | .arr candidates => !candidates.any (equals found)
    | _ => false
  | "$gt" => compareTo found argument == some .gt
  | "$gte" => match compareTo found argument with
    | some .gt | some .eq => true
    | _ => false
  | "$lt" => compareTo found argument == some .lt
  | "$lte" => match compareTo found argument with
    | some .lt | some .eq => true
    | _ => false
  | "$exists" =>
    let present := match found with
      | some value => !value.isNull
      | none => false
    argument.bool? == some present
  | _ => false

def isOperatorName (name : String) : Bool := name.toList.head? == some '$'

/-- An object of nothing but operators asks for all of them; any other condition is a value. -/
def matchField (found : Option Json) (condition : Json) : Bool :=
  match condition with
  | .obj (first :: rest) =>
    if (first :: rest).all fun (name, _) ↦ isOperatorName name then
      (first :: rest).all fun (operator, argument) ↦ applyOperator found operator argument
    else equals found condition
  | _ => equals found condition

/-- The operators on lists of filters. -/
inductive Connective where
  | and
  | or
  | nor
deriving DecidableEq, Repr

def Connective.ofKey? : String → Option Connective
  | "$and" => some .and
  | "$or" => some .or
  | "$nor" => some .nor
  | _ => none

mutual

/-- The record meets the filter. -/
def accepts (record : Json) : Json → Bool
  | .null => true
  | .obj conditions => acceptsConditions record conditions
  | _ => false

def acceptsConditions (record : Json) : List (String × Json) → Bool
  | [] => true
  | (key, condition) :: rest =>
    acceptsCondition record key condition && acceptsConditions record rest

def acceptsCondition (record : Json) (key : String) : Json → Bool
  | .arr filters =>
    match Connective.ofKey? key with
    | some .and => acceptsAll record filters
    | some .or => acceptsAny record filters
    | some .nor => !acceptsAny record filters
    | none => matchField (record.lookup key) (.arr filters)
  | condition =>
    match Connective.ofKey? key with
    | some _ => false
    | none => matchField (record.lookup key) condition

def acceptsAll (record : Json) : List Json → Bool
  | [] => true
  | filter :: rest => accepts record filter && acceptsAll record rest

def acceptsAny (record : Json) : List Json → Bool
  | [] => false
  | filter :: rest => accepts record filter || acceptsAny record rest

end

end Filter
end ResourceApi
