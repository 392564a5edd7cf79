import ResourceApi.Json.Reader
import ResourceApi.Literal
import ResourceApi.TypeRef

/-!
# Lexical grammar and literals

The tokens that type documents and requests have in common.  Commas, blanks and comments between
tokens are insignificant.  Keywords have no word boundary: what follows one may be attached to it.
-/

namespace ResourceApi.Literal

open Text Text.Reader

namespace Grammar

/-! ## Tokens -/

def isLineEnd (c : Char) : Bool := c == '\n' || c == '\r'

def isInsignificant (c : Char) : Bool :=
  c == ' ' || c == ',' || c == '\t' || c == '\uFEFF' || isLineEnd c

/-- Skips insignificant characters and comments; `inComment` is the state inside a comment. -/
def skipFrom (inComment : Bool) : List Char → List Char
  | [] => []
  | c :: rest =>
    if inComment then skipFrom (!isLineEnd c) rest
    else if isInsignificant c then skipFrom false rest
    else if c == '#' then skipFrom true rest
    else c :: rest

def skip : Reader Unit := fun text ↦ some ((), skipFrom false text)

/-- Reads `p` and what is insignificant after it. -/
def token (p : Reader α) : Reader α := p <* skip

def symbol (text : String) : Reader Unit := token (exactly text)

def nameChars : Reader (List Char) := do
  let first ← satisfy Name.isStart
  return first :: (← takeWhile Name.isContinue)

def name : Reader String := token (String.ofList <$> nameChars)

/-- A type reference holds no blanks. -/
def typeRefWith : Nat → Reader TypeRef
  | 0 => failure
  | fuel + 1 =>
    (do
      char '['
      let item ← typeRefWith fuel
      char ']'
      return .list item (!(← present (char '!')))) <|>
    (do
      let name ← nameChars
      return .named (String.ofList name) (!(← present (char '!'))))

def typeRef : Reader TypeRef := fun text ↦ token (typeRefWith (text.length + 1)) text

/-! ## Strings -/

/-- The characters of a quoted string up to its closing quote; it does not span lines, and its
escapes are no surrogates. -/
def quotedBody : List Char → Option (List Char × List Char)
  | [] => none
  | '"' :: rest => some ([], rest)
  | '\\' :: 'u' :: a :: b :: c :: d :: rest => do
    let code ← Json.hexNumber? [a, b, c, d]
    if code.isValidChar then
      let (text, rest) ← quotedBody rest
      return (Char.ofNat code :: text, rest)
    else none
  | '\\' :: c :: rest => do
    let escaped ← Json.Grammar.simpleEscape? c
    let (text, rest) ← quotedBody rest
    return (escaped :: text, rest)
  | c :: rest =>
    if isLineEnd c then none
    else do
      let (text, rest) ← quotedBody rest
      return (c :: text, rest)

/-- The raw characters of a block string up to its closing quotes; an escaped triple quote does not
close it and stays as it is written. -/
def blockBody : List Char → Option (List Char × List Char)
  | [] => none
  | '\\' :: '"' :: '"' :: '"' :: rest => do
    let (text, rest) ← blockBody rest
    return ('\\' :: '"' :: '"' :: '"' :: text, rest)
  | '"' :: '"' :: '"' :: rest => some ([], rest)
  | c :: rest => do
    let (text, rest) ← blockBody rest
    return (c :: text, rest)

/-- The lines of a text; `line` holds the current one, last character first. -/
def linesFrom (line : List Char) : List Char → List (List Char)
  | [] => [line.reverse]
  | '\r' :: '\n' :: rest => line.reverse :: linesFrom [] rest
  | c :: rest =>
    if isLineEnd c then line.reverse :: linesFrom [] rest else linesFrom (c :: line) rest

def isIndent (c : Char) : Bool := c == ' ' || c == '\t'

/-- The width of the blanks before the content of a line, if it has any. -/
def indentOf? (line : List Char) : Option Nat :=
  if line.all isIndent then none else some (line.takeWhile isIndent).length

/-- The value of a block string: the common indent of all lines but the first is taken off them, and
blank lines at both ends are dropped. -/
def blockValue (raw : List Char) : List Char :=
  let lines := linesFrom [] raw
  let indent := ((lines.drop 1).filterMap indentOf?).min?.getD 0
  let unindented := lines.zipIdx.map fun (line, i) ↦
    (line, if i != 0 && line.length ≥ indent then line.drop indent else line)
  let hasContent := fun (line : List Char × List Char) ↦ !line.1.all isIndent
  let content := ((unindented.dropWhile (!hasContent ·)).reverse.dropWhile (!hasContent ·)).reverse
  ['\n'].intercalate (content.map (·.2))

def string : Reader String := token do
  let chars ← (do
      exactly "\"\"\""
      let raw ← (blockBody : Reader (List Char))
      return blockValue raw) <|>
    (char '"' *> (quotedBody : Reader (List Char)))
  return String.ofList chars

/-! ## Numbers and words -/

def number : Reader Literal := token do
  let literal ← Json.Grammar.literal
  notFollowedBy Name.isStart
  match literal.toJson? with
  | some (.int value) => return .int value
  | some (.float value) => return .float value
  | _ => failure

/-- The words that no enum value starts with. -/
def reserved : Reader Literal :=
  (exactly "true" *> pure (.bool true)) <|>
  (exactly "false" *> pure (.bool false)) <|>
  (exactly "null" *> pure .null)

def enumName : Reader String := absent reserved *> name

/-! ## Literals -/

def scalarLiteral : Reader Literal :=
  number <|> (.str <$> string) <|> token reserved <|> (.enumeration <$> enumName)

def variableRef : Reader Literal := do
  symbol "$"
  return .variable (← name)

/-- A member of an object literal. -/
def objectField (value : Reader Literal) : Reader (String × Literal) := do
  let key ← name
  symbol ":"
  return (key, ← value)

/-- A literal whose containers nest fewer than `fuel` deep; constants have no variables. -/
def literalWith (constant : Bool) : Nat → Reader Literal
  | 0 => failure
  | fuel + 1 =>
    (if constant then failure else variableRef) <|>
    scalarLiteral <|>
    (do
      symbol "["
      let items ← many (literalWith constant fuel)
      symbol "]"
      return .list items) <|>
    (do
      symbol "\x7b"
      let members ← many (objectField (literalWith constant fuel))
      symbol "\x7d"
      return .object (Entries.ofList members))

def literal (constant : Bool) : Reader Literal := fun text ↦
  literalWith constant (text.length + 1) text

/-! ## Directives -/

/-- The arguments of a field or a directive; there is at least one. -/
def arguments (constant : Bool) : Reader (List (String × Literal)) := do
  symbol "("
  let arguments ← many1 (objectField (literal constant))
  symbol ")"
  return arguments

structure Directive where
  name : String
  arguments : List (String × Literal)

def directive (constant : Bool) : Reader Directive := do
  symbol "@"
  let name ← name
  let arguments ← maybe (arguments constant)
  return { name, arguments := arguments.getD [] }

/-- At least one directive. -/
def directives (constant : Bool) : Reader (List Directive) := many1 (directive constant)

end Grammar
end ResourceApi.Literal
