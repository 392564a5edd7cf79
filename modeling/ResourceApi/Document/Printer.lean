import ResourceApi.Document

/-!
# Writing type documents

The schema definition language form of a document, one blank line between definitions.
-/

namespace ResourceApi

/-- The word that introduces a definition. -/
def DefinitionKind.keyword : DefinitionKind → String
  | .scalar => "scalar"
  | .object => "type"
  | .interface => "interface"
  | .union => "union"
  | .enumeration => "enum"
  | .inputObject => "input"

namespace TypeDocument

/-- Puts a backslash before every triple quote. -/
def escapeTripleQuotes : List Char → List Char
  | '"' :: '"' :: '"' :: rest => '\\' :: '"' :: '"' :: '"' :: escapeTripleQuotes rest
  | c :: rest => c :: escapeTripleQuotes rest
  | [] => []

def renderDescription (indent : String) : Option String → String
  | some text => indent ++ "\"\"\"" ++ String.ofList (escapeTripleQuotes text.toList) ++ "\"\"\"\n"
  | none => ""

def renderDefault : Option String → String
  | some value => " = " ++ value
  | none => ""

def renderArgument (argument : ArgumentDefinition) : String :=
  argument.name ++ ": " ++ argument.type ++ renderDefault argument.default

def renderArguments (arguments : List ArgumentDefinition) : String :=
  if arguments.isEmpty then "" else "(" ++ ", ".intercalate (arguments.map renderArgument) ++ ")"

def renderField (field : FieldDefinition) : String :=
  renderDescription "  " field.description ++ "  " ++ field.name ++
    renderArguments field.arguments ++ ": " ++ field.type ++ renderDefault field.default ++ "\n"

def renderBlock (lines : List String) : String := " \x7b\n" ++ String.join lines ++ "\x7d\n"

/-- What stands after the name, according to the kind. -/
def renderBody (definition : Definition) : String :=
  match definition.kind with
  | .scalar => "\n"
  | .union => " = " ++ " | ".intercalate definition.members ++ "\n"
  | .enumeration => renderBlock (definition.values.map fun value ↦ "  " ++ value ++ "\n")
  | .object | .interface | .inputObject => renderBlock (definition.fields.map renderField)

def renderDefinition (definition : Definition) : String :=
  renderDescription "" definition.description ++
    (if definition.extending then "extend " else "") ++ definition.kind.keyword ++ " " ++
    definition.name ++ renderBody definition

def render (document : TypeDocument) : String :=
  "\n".intercalate (document.map renderDefinition)

end TypeDocument
end ResourceApi
