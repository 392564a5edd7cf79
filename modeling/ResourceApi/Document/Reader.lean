import ResourceApi.Document
import ResourceApi.Literal.Reader
import ResourceApi.Error

/-!
# Reading type documents

The type system part of the schema language.  Directives, implemented interfaces, and schema and
directive definitions are read and dropped; a schema definition names its query root and names no
root twice.
-/

namespace ResourceApi.TypeDocument

open Text Text.Reader Literal.Grammar

namespace Grammar

/-- Something in braces, at least once. -/
def block (p : Reader α) : Reader (List α) := do
  symbol "\x7b"
  let items ← many1 p
  symbol "\x7d"
  return items

def skipDirectives : Reader Unit := do
  let _ ← maybe (directives true)
  return ()

def defaultValue : Reader String := do
  symbol "="
  return (← literal true).render

/-! ## Fields -/

/-- An argument, or a field of an input. -/
def inputValue : Reader FieldDefinition := do
  let description ← maybe string
  let name ← name
  symbol ":"
  let type ← typeRef
  let default ← maybe defaultValue
  skipDirectives
  return { name, type := type.render, arguments := [], default, description }

def toArgument (value : FieldDefinition) : ArgumentDefinition :=
  ⟨value.name, value.type, value.default⟩

def argumentsDefinition : Reader (List ArgumentDefinition) := do
  symbol "("
  let arguments ← many1 inputValue
  symbol ")"
  return arguments.map toArgument

def fieldDefinition : Reader FieldDefinition := do
  let description ← maybe string
  let name ← name
  let arguments ← maybe argumentsDefinition
  symbol ":"
  let type ← typeRef
  skipDirectives
  return { name, type := type.render, arguments := arguments.getD [], default := none,
           description }

/-! ## Definitions -/

/-- What follows the name of a definition.  The flag marks an extension, in which something has to
follow. -/
abbrev Body := Bool → Reader (Definition → Definition)

def implemented : Reader Unit := do
  symbol "implements"
  let _ ← maybe (symbol "&")
  let _ ← sepBy1 name (symbol "&")
  return ()

def directivesOnly : Reader Unit := do
  let _ ← directives true
  return ()

def withFields (field : Reader FieldDefinition) : Reader (Definition → Definition) := do
  skipDirectives
  let fields ← block field
  return fun definition ↦ { definition with fields := fields }

/-- The fields of an object or an interface, after the interfaces it implements. -/
def fieldsBody : Body
  | false => do
    let _ ← maybe implemented
    skipDirectives
    let fields ← maybe (block fieldDefinition)
    return fun definition ↦ { definition with fields := fields.getD [] }
  | true =>
    (maybe implemented *> withFields fieldDefinition) <|>
    (maybe implemented *> directivesOnly *> pure id) <|>
    (implemented *> pure id)

def scalarBody : Body
  | false => skipDirectives *> pure id
  | true => directivesOnly *> pure id

def unionMembers : Reader (List String) := do
  symbol "="
  let _ ← maybe (symbol "|")
  sepBy1 name (symbol "|")

def unionBody : Body := fun extending ↦ do
  let body : Reader (Definition → Definition) := do
    skipDirectives
    let members ← unionMembers
    return fun definition ↦ { definition with members := members }
  if extending then body <|> (directivesOnly *> pure id)
  else body <|> (skipDirectives *> pure id)

def enumValue : Reader String := do
  let _ ← maybe string
  let value ← enumName
  skipDirectives
  return value

def enumBody : Body := fun extending ↦ do
  let body : Reader (Definition → Definition) := do
    skipDirectives
    let values ← block enumValue
    return fun definition ↦ { definition with values := values }
  if extending then body <|> (directivesOnly *> pure id)
  else body <|> (skipDirectives *> pure id)

def inputBody : Body := fun extending ↦
  let body := withFields inputValue
  if extending then body <|> (directivesOnly *> pure id)
  else body <|> (skipDirectives *> pure id)

/-- A definition that a keyword introduces, or an extension of one, which has no description. -/
def definitionOf (keyword : String) (kind : DefinitionKind) (body : Body) : Reader Definition :=
  (do
    let description ← maybe string
    symbol keyword
    let name ← name
    let complete ← body false
    return complete { Definition.new name kind with description := description }) <|>
  (do
    symbol "extend"
    symbol keyword
    let name ← name
    let complete ← body true
    return complete { Definition.new name kind with extending := true })

def typeDefinition : Reader Definition :=
  definitionOf "scalar" .scalar scalarBody <|>
  definitionOf "type" .object fieldsBody <|>
  definitionOf "interface" .interface fieldsBody <|>
  definitionOf "union" .union unionBody <|>
  definitionOf "enum" .enumeration enumBody <|>
  definitionOf "input" .inputObject inputBody

/-! ## Definitions that are dropped -/

inductive RootKind where
  | query
  | mutation
  | subscription
deriving DecidableEq

def rootKind : Reader RootKind :=
  (symbol "query" *> pure .query) <|>
  (symbol "mutation" *> pure .mutation) <|>
  (symbol "subscription" *> pure .subscription)

def rootType : Reader RootKind := do
  let kind ← rootKind
  symbol ":"
  let _ ← name
  return kind

def distinct (roots : List RootKind) : Bool := roots.eraseDups.length == roots.length

def schemaDefinition : Reader Unit :=
  (do
    symbol "schema"
    skipDirectives
    let roots ← block rootType
    if distinct roots && roots.contains .query then return () else failure) <|>
  (do
    symbol "extend"
    symbol "schema"
    let roots ← (skipDirectives *> block rootType) <|> (directivesOnly *> pure [])
    if distinct roots then return () else failure)

def directiveLocations : List String :=
  ["QUERY", "MUTATION", "SUBSCRIPTION", "FIELD_DEFINITION", "FIELD", "FRAGMENT_DEFINITION",
    "FRAGMENT_SPREAD", "INLINE_FRAGMENT", "VARIABLE_DEFINITION", "SCHEMA", "SCALAR", "OBJECT",
    "ARGUMENT_DEFINITION", "INTERFACE", "UNION", "ENUM_VALUE", "ENUM", "INPUT_OBJECT",
    "INPUT_FIELD_DEFINITION"]

def directiveLocation : Reader Unit :=
  directiveLocations.foldr (fun location rest ↦ symbol location <|> rest) failure

def directiveDefinition : Reader Unit := do
  let _ ← maybe string
  symbol "directive"
  symbol "@"
  let _ ← name
  let _ ← maybe argumentsDefinition
  let _ ← maybe (symbol "repeatable")
  symbol "on"
  let _ ← maybe (symbol "|")
  let _ ← sepBy1 directiveLocation (symbol "|")
  return ()

/-! ## Documents -/

def entry : Reader (Option Definition) :=
  (schemaDefinition *> pure none) <|>
  (some <$> typeDefinition) <|>
  (directiveDefinition *> pure none)

def document : Reader TypeDocument := do
  skip
  let entries ← many1 entry
  return entries.filterMap id

end Grammar

/-- The document that a text denotes. -/
def parse (text : String) : Except CompileError TypeDocument :=
  match Grammar.document.readAll text.toList with
  | some document => .ok document
  | none => .error (.invalidDocument .unreadable)

/-- The number of definitions in a text, those that are dropped included. -/
def countDefinitions? (text : String) : Option Nat :=
  ((skip *> many1 Grammar.entry : Reader _).readAll text.toList).map List.length

end ResourceApi.TypeDocument
