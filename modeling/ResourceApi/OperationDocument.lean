import ResourceApi.Fragment.Dependencies
import ResourceApi.Signature

/-!
# Operation documents

Ready-to-send documents: one for every operation and every part of the object that it returns, each
with the fragments that it needs.  An operation with several documents tells them apart by part.
-/

namespace ResourceApi

structure OperationDocument where
  name : String
  kind : OperationKind
  operation : String
  resource : String
  part : Option String
  source : String
deriving DecidableEq, Repr

namespace OperationDocument

/-- The variables of an operation, each passed on under its own name. -/
def variableDefinitions (arguments : List ArgumentSignature) : String :=
  if arguments.isEmpty then ""
  else "(" ++ ", ".intercalate (arguments.map fun a ↦ "$" ++ a.name ++ ": " ++ a.type) ++ ")"

def passedArguments (arguments : List ArgumentSignature) : String :=
  if arguments.isEmpty then ""
  else "(" ++ ", ".intercalate (arguments.map fun a ↦ a.name ++ ": $" ++ a.name) ++ ")"

/-- The text of an operation with an optional selection of its result. -/
def operationText (signature : Signature) (name : String) (selection : Option String) : String :=
  signature.kind.keyword ++ " " ++ name ++ variableDefinitions signature.arguments ++ " \x7b\n  " ++
    signature.name ++ passedArguments signature.arguments ++
    (match selection with
      | some selection => " " ++ selection
      | none => "") ++
    "\n\x7d\n"

/-- A document without fragments. -/
def plain (signature : Signature) (selection : Option String) : OperationDocument :=
  { name := signature.name, kind := signature.kind, operation := signature.name
    resource := signature.resource, part := none
    source := operationText signature signature.name selection }

/-- The selection of a result by one fragment; pages have it in their documents. -/
def selectionBy (shape : ReturnShape) (fragment : String) : String :=
  match shape with
  | .page _ => "\x7b docs \x7b ..." ++ fragment ++ " \x7d total page limit \x7d"
  | _ => "\x7b ..." ++ fragment ++ " \x7d"

/-- A document for one part, followed by the fragments it needs. -/
def forPart (fragments : FragmentSet) (signature : Signature) (name part fragment : String) :
    OperationDocument :=
  let text := operationText signature name (some (selectionBy signature.shape fragment))
  { name, kind := signature.kind, operation := signature.name, resource := signature.resource
    part := some part
    source := text ++ String.join
      ((fragments.dependencies fragment).map fun needed ↦ "\n" ++ needed.render) }

/-- The documents for an operation that returns objects of a type. -/
def forObject (fragments : FragmentSet) (signature : Signature) (object : String) :
    List OperationDocument :=
  match fragments.partsOf object with
  | [] => [plain signature (some "\x7b __typename \x7d")]
  | [(part, fragment)] => [forPart fragments signature signature.name part fragment]
  | parts => parts.map fun (part, fragment) ↦
      forPart fragments signature (signature.name ++ "_" ++ part) part fragment

def ofSignature (fragments : FragmentSet) (signature : Signature) : List OperationDocument :=
  match signature.shape with
  | .scalar => [plain signature none]
  | .nameAndId => [plain signature (some "\x7b id name \x7d")]
  | .object object | .page object => forObject fragments signature object

def ofSignatures (fragments : FragmentSet) (signatures : List Signature) :
    List OperationDocument :=
  signatures.flatMap (ofSignature fragments)

/-- All documents in one text, a blank line between them. -/
def renderAll (documents : List OperationDocument) : String :=
  "\n".intercalate (documents.map (·.source))

def encode (document : OperationDocument) : Json :=
  .obj [("name", .str document.name), ("kind", .str document.kind.keyword),
    ("operation", .str document.operation), ("resource", .str document.resource),
    ("part", Json.ofOption .str document.part), ("source", .str document.source)]

end OperationDocument
end ResourceApi
