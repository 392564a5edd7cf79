import ResourceApi.Json
import ResourceApi.Pattern.Reader

/-!
# Scalars

The scalar names a model may use: primitives, which map to built-in scalars, and the scalars of a
registry, each with a predicate that values written under it have to satisfy.
-/

namespace ResourceApi

namespace Scalar

/-- Scalars every schema language knows. -/
def standard : List String := ["String", "Int", "Float", "ID", "Boolean"]

/-- Untyped values: filters, sort documents and mixed fields. -/
def json : String := "JSON"

/-- Counts and totals. -/
def nonNegativeInt : String := "NonNegativeInt"

def dateTime : String := "DateTime"

/-- The scalar of a declared primitive. -/
def ofPrimitive? : String → Option String
  | "String" | "Str" => some "String"
  | "Int" | "Integer" | "Int32" | "Int64" | "Long" | "BigInt" => some "Int"
  | "Number" | "Float" | "Double" | "Decimal" | "Decimal128" => some "Float"
  | "ID" | "Id" | "ObjectId" | "UUID" => some "ID"
  | "Boolean" | "Bool" => some "Boolean"
  | "Date" | "DateTime" => some dateTime
  | "Mixed" | "Map" | "Object" | "JSON" => some json
  | _ => none

def isStandard (name : String) : Bool := standard.contains name

/-- Scalars that need no entry in a registry. -/
def isBuiltin (name : String) : Bool :=
  isStandard name || name == json || name == nonNegativeInt

/-- At least eight characters, a digit and a letter. -/
def isPassword (text : String) : Bool :=
  text.length ≥ 8 && text.toList.any Char.isDigit && text.toList.any Text.isAlphabetic

/-- Three to 32 characters, a letter first. -/
def usernamePattern : String := "^[A-Za-z][A-Za-z0-9_.\\-]\x7b2,31\x7d$"

/-- A local part and a dotted domain. -/
def emailPattern : String :=
  "^[A-Za-z0-9._%+\\-]+@[A-Za-z0-9\\-]+(\\.[A-Za-z0-9\\-]+)+$"

/-- A calendar date, or one with a time of day and an offset. -/
def dateTimePattern : String :=
  "^\\d\x7b4\x7d-(0[1-9]|1[0-2])-(0[1-9]|[12]\\d|3[01])" ++
  "(T([01]\\d|2[0-3]):[0-5]\\d:[0-5]\\d(\\.\\d+)?(Z|[+\\-]([01]\\d|2[0-3]):[0-5]\\d))?$"

end Scalar

/-- A predicate on the values of a scalar. -/
abbrev ScalarRule := Json → Bool

namespace ScalarRule

/-- Strings with a property. -/
def onText (holds : String → Bool) : ScalarRule := fun value ↦
  match value with
  | .str text => holds text
  | _ => false

def matching (pattern : Pattern) : ScalarRule := onText pattern.isMatch

/-- Strings that match the pattern that `text` denotes. -/
def ofText? (text : String) : Option ScalarRule := (Pattern.parse? text).map matching

def ofText (text : String) : ScalarRule := (ofText? text).getD fun _ ↦ false

end ScalarRule

/-- Registered scalars in registration order. -/
structure ScalarRegistry where
  rules : Entries ScalarRule

namespace ScalarRegistry

/-- Registers a scalar; a name that is taken keeps its place and gets the new rule. -/
def register (registry : ScalarRegistry) (name : String) (rule : ScalarRule) : ScalarRegistry :=
  ⟨Entries.put name rule registry.rules⟩

def default : ScalarRegistry :=
  ⟨[("Password", ScalarRule.onText Scalar.isPassword),
    ("Username", ScalarRule.ofText Scalar.usernamePattern),
    ("Email", ScalarRule.ofText Scalar.emailPattern),
    (Scalar.dateTime, ScalarRule.ofText Scalar.dateTimePattern)]⟩

def names (registry : ScalarRegistry) : List String := registry.rules.keys

def has (registry : ScalarRegistry) (name : String) : Bool := registry.rules.has name

def rule? (registry : ScalarRegistry) (name : String) : Option ScalarRule :=
  registry.rules.get? name

def isKnown (registry : ScalarRegistry) (name : String) : Bool :=
  Scalar.isBuiltin name || registry.has name

/-- The value may be written under the scalar: null and scalars without a rule always pass. -/
def accepts (registry : ScalarRegistry) (name : String) (value : Json) : Bool :=
  value.isNull || match registry.rule? name with
    | some rule => rule value
    | none => true

end ScalarRegistry
end ResourceApi
