import ResourceApi.Json
import ResourceApi.Number.Shortest

/-!
# Writing JSON text

Two layouts: compact, without any blanks, and indented by two blanks a level, where an empty
container stays on its line.  Strings escape the quote, the backslash and control characters only.
-/

namespace ResourceApi.Json

namespace Printer

def hexDigit (n : Nat) : Char := Nat.digitChar n

def escape (c : Char) : List Char :=
  if c == '"' then ['\\', '"']
  else if c == '\\' then ['\\', '\\']
  else if c == '\n' then ['\\', 'n']
  else if c == '\r' then ['\\', 'r']
  else if c == '\t' then ['\\', 't']
  else if c == '\x08' then ['\\', 'b']
  else if c == '\x0c' then ['\\', 'f']
  else if c.toNat < 0x20 then
    ['\\', 'u', '0', '0', hexDigit (c.toNat / 16), hexDigit (c.toNat % 16)]
  else [c]

def quote (text : String) : String :=
  "\"" ++ String.ofList (text.toList.flatMap escape) ++ "\""

def indent (level : Nat) : String := String.ofList (List.replicate (2 * level) ' ')

end Printer

mutual

/-- Text without blanks. -/
def compact : Json → String
  | .null => "null"
  | .bool true => "true"
  | .bool false => "false"
  | .int value => toString value
  | .float value => value.render
  | .str text => Printer.quote text
  | .arr items => "[" ++ ",".intercalate (compactItems items) ++ "]"
  | .obj members => "\x7b" ++ ",".intercalate (compactMembers members) ++ "\x7d"

def compactItems : List Json → List String
  | [] => []
  | value :: rest => value.compact :: compactItems rest

def compactMembers : List (String × Json) → List String
  | [] => []
  | (key, value) :: rest => (Printer.quote key ++ ":" ++ value.compact) :: compactMembers rest

end

mutual

/-- Text indented from `level` on. -/
def prettyAt (level : Nat) : Json → String
  | .arr (item :: items) =>
    "[\n" ++ ",\n".intercalate (prettyItems (level + 1) (item :: items)) ++ "\n" ++
      Printer.indent level ++ "]"
  | .obj (member :: members) =>
    "\x7b\n" ++ ",\n".intercalate (prettyMembers (level + 1) (member :: members)) ++ "\n" ++
      Printer.indent level ++ "\x7d"
  | value => value.compact

def prettyItems (level : Nat) : List Json → List String
  | [] => []
  | value :: rest => (Printer.indent level ++ prettyAt level value) :: prettyItems level rest

def prettyMembers (level : Nat) : List (String × Json) → List String
  | [] => []
  | (key, value) :: rest =>
    (Printer.indent level ++ Printer.quote key ++ ": " ++ prettyAt level value) ::
      prettyMembers level rest

end

def pretty (value : Json) : String := value.prettyAt 0

end ResourceApi.Json
