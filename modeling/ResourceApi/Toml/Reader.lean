import ResourceApi.Json.Reader
import ResourceApi.Number.Decimal
import ResourceApi.Toml

/-!
# Reading TOML

Version 1.1 of the format, without dates and times.  Integers fit 64 bits, signed or unsigned; floats
are rounded once, and infinities and numbers that are none are null.
-/

namespace ResourceApi.Toml

open Text Text.Reader

namespace Grammar

/-! ## Blanks -/

/-- Control characters stand in no text, comments included. -/
def isControl (c : Char) : Bool := (c.toNat < 0x20 && c != '\t') || c.toNat == 0x7f

def blanks : Reader Unit := skipWhile fun c ↦ c == ' ' || c == '\t'

def newline : Reader Unit := char '\n' <|> (char '\r' *> char '\n')

def comment : Reader Unit := char '#' *> skipWhile (!isControl ·)

/-- What may stand before the end of a line. -/
def lineRest : Reader Unit := do
  blanks
  let _ ← maybe comment

/-- Blanks, comments and line ends. -/
def space : Reader Unit := do
  let _ ← many (lineRest *> newline)
  blanks

/-! ## Texts -/

def codePoint? (digits : List Char) : Option Char := do
  let code ← Json.hexNumber? digits
  if code.isValidChar then return Char.ofNat code else failure

/-- An escape after its backslash. -/
def escape : List Char → Option (Char × List Char)
  | 'b' :: rest => some ('\x08', rest)
  | 't' :: rest => some ('\t', rest)
  | 'n' :: rest => some ('\n', rest)
  | 'f' :: rest => some ('\x0c', rest)
  | 'r' :: rest => some ('\r', rest)
  | 'e' :: rest => some ('\x1b', rest)
  | '"' :: rest => some ('"', rest)
  | '\\' :: rest => some ('\\', rest)
  | 'x' :: a :: b :: rest => (codePoint? [a, b]).map (·, rest)
  | 'u' :: a :: b :: c :: d :: rest => (codePoint? [a, b, c, d]).map (·, rest)
  | 'U' :: a :: b :: c :: d :: e :: f :: g :: h :: rest =>
    (codePoint? [a, b, c, d, e, f, g, h]).map (·, rest)
  | _ => none

def plainChar : Reader Char := satisfy (!isControl ·)

def escapedChar : Reader Char := char '\\' *> (escape : Reader Char)

def basicChar : Reader Char := escapedChar <|> (notFollowedBy (· == '"') *> plainChar)

def basicText : Reader (List Char) := char '"' *> many basicChar <* char '"'

def isApostrophe (c : Char) : Bool := c.toNat == 0x27

def apostrophe : Reader Unit := do
  let _ ← satisfy isApostrophe

def literalText : Reader (List Char) :=
  apostrophe *> takeWhile (fun c ↦ !isApostrophe c && !isControl c) <* apostrophe

/-- The characters of a line end, which are part of a text of several lines. -/
def newlineChars : Reader (List Char) :=
  (char '\n' *> pure ['\n']) <|> (char '\r' *> char '\n' *> pure ['\r', '\n'])

/-- A backslash at the end of a line takes out the line end and the blanks after it. -/
def continuation : Reader (List Char) := do
  char '\\'
  blanks
  newline
  let _ ← many (newline <|> do let _ ← satisfy fun c ↦ c == ' ' || c == '\t')
  return []

/-- Up to two quotes that are no closing quotes. -/
def innerQuotes (quote : Char → Bool) : Reader (List Char) := do
  let c ← satisfy quote
  let more ← maybe (satisfy quote)
  notFollowedBy quote
  return c :: more.toList

/-- The closing quotes of a text of several lines, with up to two quotes that end the text. -/
def closingQuotes (quote : Char → Bool) : Reader (List Char) := do
  let quotes ← takeWhile1 quote
  if 3 ≤ quotes.length && quotes.length ≤ 5 then return quotes.drop 3 else failure

/-- A text of several lines; a line end right after the opening quotes is left out. -/
def multiline (quote : Char → Bool) (piece : Reader (List Char)) : Reader (List Char) := do
  let _ ← times (satisfy quote) 3
  let _ ← maybe newline
  let pieces ← many (piece <|> innerQuotes quote)
  return pieces.flatten ++ (← closingQuotes quote)

def basicPiece : Reader (List Char) :=
  newlineChars <|> continuation <|> (List.singleton <$> basicChar)

def literalPiece : Reader (List Char) :=
  newlineChars <|> (List.singleton <$> (notFollowedBy isApostrophe *> plainChar))

def text : Reader String :=
  String.ofList <$> (multiline (· == '"') basicPiece <|> multiline isApostrophe literalPiece <|>
    basicText <|> literalText)

/-! ## Keys -/

def isKeyChar (c : Char) : Bool := c.isAlphanum || c == '-' || c == '_'

def simpleKey : Reader String :=
  String.ofList <$> (takeWhile1 isKeyChar <|> basicText <|> literalText)

/-- A dotted key: the path to a table, and the key in it. -/
def key : Reader (List String × String) := do
  let first ← simpleKey
  let more ← many (blanks *> char '.' *> blanks *> simpleKey)
  let keys := first :: more
  return (keys.dropLast, keys.getLast?.getD first)

/-! ## Numbers -/

/-- The digits of a numeral in which single underscores stand between digits. -/
def digits? (isDigit : Char → Bool) : List Char → Option (List Char)
  | [] => none
  | [c] => if isDigit c then some [c] else none
  | c :: '_' :: rest => if isDigit c then (digits? isDigit rest).map (c :: ·) else none
  | c :: rest => if isDigit c then (digits? isDigit rest).map (c :: ·) else none

/-- The number that digits denote in a base. -/
def natural? (base : Nat) (digits : List Char) : Option Nat :=
  digits.foldlM (fun n c ↦ do
    let value ← Json.hexValue? c
    if value < base then return n * base + value else failure) 0

/-- A numeral in a base other than ten. -/
def based? (base : Nat) (text : List Char) : Option Int := do
  let digits ← digits? Char.isAlphanum text
  return ((← natural? base digits) : Nat)

/-- Decimal digits without leading zeros. -/
def whole? (text : List Char) : Option (List Char) := do
  let digits ← digits? Char.isDigit text
  if digits.length > 1 && digits.head? == some '0' then failure
  return digits

def isExponentMark (c : Char) : Bool := c == 'e' || c == 'E'

/-- A sign and what follows it. -/
def signed (text : List Char) : Bool × List Char :=
  match text with
  | '-' :: rest => (true, rest)
  | '+' :: rest => (false, rest)
  | _ => (false, text)

/-- The value of a decimal exponent; none is zero. -/
def exponent? (text : List Char) : Option Int :=
  match text with
  | [] => some 0
  | _ :: rest => do
    let (negative, rest) := signed rest
    let n : Nat ← natural? 10 (← digits? Char.isDigit rest)
    return if negative then -(n : Int) else n

/-- The digits after the point, if there is one. -/
def fraction? (text : List Char) : Option (List Char) :=
  match text with
  | [] => some []
  | _ :: rest => digits? Char.isDigit rest

def float? (negative : Bool) (text : List Char) : Option Json := do
  let mantissa := text.takeWhile (!isExponentMark ·)
  let whole ← whole? (mantissa.takeWhile (· != '.'))
  let fraction ← fraction? (mantissa.dropWhile (· != '.'))
  let exponent ← exponent? (text.dropWhile (!isExponentMark ·))
  let digits ← natural? 10 (whole ++ fraction)
  let value ← Number.Binary64.ofDecimal? negative digits (exponent - fraction.length)
  return .float value

/-- An integer that fits 64 bits. -/
def integer? (n : Int) : Option Json :=
  if -(Json.signedBound : Int) ≤ n && n < Json.unsignedBound then some (.int n) else none

def decimal? (negative : Bool) (text : List Char) : Option Json :=
  if text.any fun c ↦ c == '.' || isExponentMark c then float? negative text
  else do
    let n : Nat ← natural? 10 (← whole? text)
    integer? (if negative then -(n : Int) else n)

/-- A value that is no text and no container. -/
def plain? (text : List Char) : Option Json :=
  match text with
  | '0' :: 'x' :: rest => (based? 16 rest).bind integer?
  | '0' :: 'o' :: rest => (based? 8 rest).bind integer?
  | '0' :: 'b' :: rest => (based? 2 rest).bind integer?
  | _ =>
    if text == "true".toList then some (.bool true)
    else if text == "false".toList then some (.bool false)
    else
      let (negative, rest) := signed text
      if rest == "inf".toList || rest == "nan".toList then some .null else decimal? negative rest

def isPlainChar (c : Char) : Bool :=
  c.isAlphanum || c == '+' || c == '-' || c == '_' || c == '.'

def plain : Reader Json := do
  match plain? (← takeWhile1 isPlainChar) with
  | some value => return value
  | none => failure

/-! ## Containers -/

/-- Items with commas between them; a comma may follow the last one. -/
def listed (item : Reader α) : Reader (List α) := do
  space
  let items ← sepBy item (space *> char ',' *> space)
  space
  let _ ← maybe (if items.isEmpty then failure else char ',' *> space)
  return items

def array (value : Reader Json) : Reader Json := do
  char '['
  let items ← listed value
  char ']'
  return .arr items

def pair (value : Reader Json) : Reader (List String × String × Json) := do
  let (path, key) ← key
  blanks *> char '=' *> blanks
  return (path, key, ← value)

def inlineTable (value : Reader Json) : Reader Json := do
  char '\x7b'
  let pairs ← listed (pair value)
  char '\x7d'
  match pairs.foldlM (fun table (path, key, value) ↦ Table.addPair path key value table) [] with
  | some table => return Table.toJson table
  | none => failure

/-- A value whose containers nest fewer than `fuel` deep. -/
def value : Nat → Reader Json
  | 0 => failure
  | fuel + 1 =>
    (.str <$> text) <|> plain <|> array (value fuel) <|> inlineTable (value fuel)

/-! ## Documents -/

def bracketed (opening closing : String) : Reader (List String × String) := do
  exactly opening *> blanks
  let key ← key
  blanks *> exactly closing
  return key

def statement (depth : Nat) : Reader Statement :=
  (do
    let (path, key) ← bracketed "[[" "]]"
    return .item path key) <|>
  (do
    let (path, key) ← bracketed "[" "]"
    return .header path key) <|>
  (do
    let (path, key, value) ← pair (value depth)
    return .pair path key value)

/-- A line with a statement, or an empty one.  The last line is the one that ends the text. -/
def line (depth : Nat) : Reader (Option Statement) := do
  blanks
  let statement ← maybe (statement depth)
  lineRest
  newline
  return statement

def lastLine (depth : Nat) : Reader (Option Statement) := do
  blanks
  let statement ← maybe (statement depth)
  lineRest
  return statement

def document (depth : Nat) : Reader (List Statement) := do
  let _ ← maybe (char '\uFEFF')
  let lines ← many (line depth)
  let last ← lastLine depth
  return (lines ++ [last]).filterMap id

end Grammar

/-- The value that a TOML text denotes. -/
def parse? (text : String) : Option Json := do
  let chars := text.toList
  let statements ← (Grammar.document (chars.length + 1)).readAll chars
  return (← Table.ofStatements statements).toJson

end ResourceApi.Toml
