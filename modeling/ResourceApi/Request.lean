import ResourceApi.Entries
import ResourceApi.Literal.Reader

/-!
# Requests

Executable documents: operations and fragments with their selections.
-/

namespace ResourceApi.Request

open Literal.Grammar (Directive)

inductive Kind where
  | query
  | mutation
  | subscription
deriving DecidableEq, Repr

inductive Selection where
  | field (label : Option String) (name : String) (arguments : List (String × Literal))
      (directives : List Directive) (selections : List Selection)
  | spread (fragment : String) (directives : List Directive)
  | inline (on : Option String) (directives : List Directive) (selections : List Selection)

namespace Selection

def directives : Selection → List Directive
  | .field _ _ _ directives _ => directives
  | .spread _ directives => directives
  | .inline _ directives _ => directives

end Selection

structure VariableDefinition where
  name : String
  type : TypeRef
  default : Option Literal
  directives : List Directive

/-- A variable takes its default when none is given; a nullable one without default takes null. -/
def VariableDefinition.fallback (definition : VariableDefinition) : Option Literal :=
  definition.default.orElse fun _ ↦ if definition.type.nullable then some .null else none

structure Operation where
  kind : Kind
  name : Option String
  variableDefinitions : List VariableDefinition
  directives : List Directive
  selections : List Selection

structure FragmentDefinition where
  name : String
  on : String
  directives : List Directive
  selections : List Selection

structure Document where
  operations : List Operation
  fragments : List FragmentDefinition

namespace Document

def fragment? (document : Document) (name : String) : Option FragmentDefinition :=
  document.fragments.find? (·.name == name)

/-- The operation that a request asks for: the only one, or the one that it names. -/
def operation? (document : Document) (name : Option String) : Option Operation :=
  match name, document.operations with
  | none, [operation] => some operation
  | none, _ => none
  | some name, operations => operations.find? (·.name == some name)

end Document
end ResourceApi.Request
