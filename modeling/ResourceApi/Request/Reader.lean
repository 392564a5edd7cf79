import ResourceApi.Request

/-!
# Reading requests

The executable part of the schema language.  A document has at least one operation; an operation
without a name stands alone, and neither operations nor fragments share a name.
-/

namespace ResourceApi.Request

open Text Text.Reader Literal.Grammar

namespace Grammar

def optionalDirectives : Reader (List Directive) := return (← maybe (directives false)).getD []

def typeCondition : Reader String := do
  symbol "on"
  name

/-- The name a result is reported under, before the name of the field. -/
def label : Reader String := do
  let label ← name
  symbol ":"
  return label

mutual

/-- Selections nested fewer than `fuel` deep. -/
def selectionSet : Nat → Reader (List Selection)
  | 0 => failure
  | fuel + 1 => do
    symbol "\x7b"
    let selections ← many1 (selection fuel)
    symbol "\x7d"
    return selections

def selection (fuel : Nat) : Reader Selection :=
  (do
    let label ← maybe label
    let name ← name
    let arguments ← maybe (arguments false)
    let directives ← optionalDirectives
    let selections ← maybe (selectionSet fuel)
    return .field label name (arguments.getD []) directives (selections.getD [])) <|>
  (do
    symbol "..."
    let on ← maybe typeCondition
    let directives ← optionalDirectives
    let selections ← selectionSet fuel
    return .inline on directives selections) <|>
  (do
    symbol "..."
    absent typeCondition
    let fragment ← name
    return .spread fragment (← optionalDirectives))

end

def maxDepth : Nat := 64

def variableDefinition : Reader VariableDefinition := do
  symbol "$"
  let name ← name
  symbol ":"
  let type ← typeRef
  let before ← optionalDirectives
  let default ← maybe (symbol "=" *> literal true)
  let after ← optionalDirectives
  return { name, type, default, directives := before ++ after }

def variableDefinitions : Reader (List VariableDefinition) := do
  symbol "("
  let definitions ← many variableDefinition
  symbol ")"
  return definitions

def kind : Reader Kind :=
  (symbol "query" *> pure .query) <|>
  (symbol "mutation" *> pure .mutation) <|>
  (symbol "subscription" *> pure .subscription)

def operation : Reader Operation :=
  (do
    let kind ← kind
    let name ← maybe name
    let definitions ← maybe variableDefinitions
    let directives ← optionalDirectives
    let selections ← selectionSet maxDepth
    return { kind, name, variableDefinitions := definitions.getD [], directives, selections }) <|>
  (do
    let selections ← selectionSet maxDepth
    return { kind := .query, name := none, variableDefinitions := [], directives := [], selections })

def fragment : Reader FragmentDefinition := do
  symbol "fragment"
  let name ← name
  let on ← typeCondition
  let directives ← optionalDirectives
  let selections ← selectionSet maxDepth
  return { name, on, directives, selections }

def definitions : Reader (List (Operation ⊕ FragmentDefinition)) := do
  skip
  many1 ((Sum.inl <$> operation) <|> (Sum.inr <$> fragment))

end Grammar

def distinct (names : List String) : Bool := names.eraseDups.length == names.length

/-- There is an operation, one without a name is the only one, and names are not shared. -/
def Document.isWellFormed (document : Document) : Bool :=
  let names := document.operations.filterMap (·.name)
  !document.operations.isEmpty &&
    (document.operations.length == 1 || names.length == document.operations.length) &&
    distinct names && distinct (document.fragments.map (·.name))

/-- The request document that a text denotes. -/
def parse? (text : String) : Option Document := do
  let definitions ← Grammar.definitions.readAll text.toList
  let document : Document := {
    operations := definitions.filterMap fun
      | .inl operation => some operation
      | .inr _ => none
    fragments := definitions.filterMap fun
      | .inl _ => none
      | .inr fragment => some fragment }
  if document.isWellFormed then some document else none

end ResourceApi.Request
