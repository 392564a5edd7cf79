import ResourceApi.Json.Number
import ResourceApi.Text.Reader

/-!
# Reading JSON text

The grammar of JSON with its limits: containers nest at most 127 deep, control characters stand in
strings only as escapes, and surrogate escapes come in pairs.  A text is read as it is written, or
with the members of one name put together.
-/

namespace ResourceApi.Json

open Text Text.Reader

def maxDepth : Nat := 127

def hexValue? (c : Char) : Option Nat :=
  if c.isDigit then some (c.toNat - '0'.toNat)
  else if 'a' ≤ c && c ≤ 'f' then some (c.toNat - 'a'.toNat + 10)
  else if 'A' ≤ c && c ≤ 'F' then some (c.toNat - 'A'.toNat + 10)
  else none

/-- The number that hexadecimal digits denote. -/
def hexNumber? (digits : List Char) : Option Nat :=
  digits.foldlM (fun n c ↦ (hexValue? c).map (n * 16 + ·)) 0

def isHighSurrogate (code : Nat) : Bool := 0xD800 ≤ code && code < 0xDC00
def isLowSurrogate (code : Nat) : Bool := 0xDC00 ≤ code && code < 0xE000

def surrogatePair (high low : Nat) : Char :=
  Char.ofNat (0x10000 + (high - 0xD800) * 0x400 + (low - 0xDC00))

namespace Grammar

def blank (c : Char) : Bool := c == ' ' || c == '\n' || c == '\t' || c == '\r'

def skip : Reader Unit := skipWhile blank

def simpleEscape? : Char → Option Char
  | '"' => some '"'
  | '\\' => some '\\'
  | '/' => some '/'
  | 'b' => some '\x08'
  | 'f' => some '\x0c'
  | 'n' => some '\n'
  | 'r' => some '\r'
  | 't' => some '\t'
  | _ => none

/-- The characters of a string up to its closing quote. -/
def stringBody : List Char → Option (List Char × List Char)
  | [] => none
  | '"' :: rest => some ([], rest)
  | '\\' :: 'u' :: a :: b :: c :: d :: rest => do
    let code ← hexNumber? [a, b, c, d]
    if isLowSurrogate code then none
    else if isHighSurrogate code then
      match rest with
      | '\\' :: 'u' :: e :: f :: g :: h :: rest =>
        let low ← hexNumber? [e, f, g, h]
        if isLowSurrogate low then
          let (text, rest) ← stringBody rest
          return (surrogatePair code low :: text, rest)
        else none
      | _ => none
    else
      let (text, rest) ← stringBody rest
      return (Char.ofNat code :: text, rest)
  | '\\' :: c :: rest => do
    let escaped ← simpleEscape? c
    let (text, rest) ← stringBody rest
    return (escaped :: text, rest)
  | c :: rest =>
    if c.toNat < 0x20 then none
    else do
      let (text, rest) ← stringBody rest
      return (c :: text, rest)

def string : Reader String := do
  char '"'
  return String.ofList (← (stringBody : Reader (List Char)))

def digits : Reader (List Char) := takeWhile1 Char.isDigit

def decimalNumber? (digits : List Char) : Nat :=
  digits.foldl (fun n c ↦ n * 10 + Literal.digitValue c) 0

def exponent : Reader Int := do
  let _ ← satisfy fun c ↦ c == 'e' || c == 'E'
  let sign ← maybe (satisfy fun c ↦ c == '+' || c == '-')
  let magnitude : Int := decimalNumber? (← digits)
  return if sign == some '-' then -magnitude else magnitude

/-- A number: no leading zeros, and a digit on each side of a point. -/
def literal : Reader Literal := do
  let negative ← present (char '-')
  let whole ← (char '0' *> pure ['0']) <|> digits
  let fraction ← maybe (char '.' *> digits)
  let exponent ← maybe exponent
  return { negative, whole, fraction, exponent }

def number : Reader Json := do
  match (← literal).toJson? with
  | some value => notFollowedBy (fun c ↦ c.isDigit || c == '.') *> pure value
  | none => failure

def comma : Reader Unit := skip *> char ',' *> skip

def atom : Reader Json :=
  (exactly "null" *> pure .null) <|>
  (exactly "true" *> pure (.bool true)) <|>
  (exactly "false" *> pure (.bool false)) <|>
  (.str <$> string) <|>
  number

def array (item : Reader Json) : Reader Json := do
  char '[' *> skip
  let items ← sepBy item comma
  skip *> char ']'
  return .arr items

def member (item : Reader Json) : Reader (String × Json) := do
  let key ← string
  skip *> char ':' *> skip
  return (key, ← item)

def object (item : Reader Json) : Reader Json := do
  char '\x7b' *> skip
  let members ← sepBy (member item) comma
  skip *> char '\x7d'
  return .obj members

/-- A value whose containers nest at most `depth` deep. -/
def value : Nat → Reader Json
  | 0 => atom
  | depth + 1 => atom <|> array (value depth) <|> object (value depth)

def document : Reader Json := skip *> value maxDepth <* skip

end Grammar

/-- The value as a JSON text spells it: names may be repeated. -/
def spelled? (text : String) : Option Json := Grammar.document.readAll text.toList

/-- The value that a JSON text denotes; of members with one name the last value is kept. -/
def parse? (text : String) : Option Json := (spelled? text).map distinct

end ResourceApi.Json
