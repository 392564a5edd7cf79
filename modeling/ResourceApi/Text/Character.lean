import ResourceApi.Text.PropertyTable
import ResourceApi.Text.CaseTable

/-!
# Characters

Classes and case maps of characters over the whole of Unicode.  The first 128 code points are
decided here by comparison; the rest is looked up in the tables.
-/

namespace ResourceApi.Text

/-- Membership of a code in a list of runs `(first, last, step)`. -/
def inRuns (runs : List (Nat × Nat × Nat)) (code : Nat) : Bool :=
  runs.any fun (first, last, step) ↦ first ≤ code && code ≤ last && (code - first) % step == 0

/-- The image of a code under a list of shifted runs; a code in no run is its own image. -/
def shifted (runs : List (Nat × Nat × Nat × Int)) (code : Nat) : Nat :=
  match runs.find? fun (first, last, step, _) ↦
      first ≤ code && code ≤ last && (code - first) % step == 0 with
  | some (_, _, _, shift) => (code + shift : Int).toNat
  | none => code

def isAscii (c : Char) : Bool := c.toNat < 128

def isUpper (c : Char) : Bool :=
  if isAscii c then c.isUpper else inRuns Table.uppercase c.toNat

def isLower (c : Char) : Bool :=
  if isAscii c then c.isLower else inRuns Table.lowercase c.toNat

def isAlphabetic (c : Char) : Bool :=
  if isAscii c then c.isAlpha else inRuns Table.alphabetic c.toNat

def isDecimalDigit (c : Char) : Bool :=
  if isAscii c then c.isDigit else inRuns Table.decimalDigit c.toNat

/-- Letters and numbers of every kind: the characters that words consist of. -/
def isAlphanumeric (c : Char) : Bool :=
  if isAscii c then c.isAlphanum
  else inRuns Table.alphabetic c.toNat || inRuns Table.numeric c.toNat

/-- White space, the control characters from tab to carriage return included. -/
def isBlank (c : Char) : Bool :=
  if isAscii c then c == ' ' || (9 ≤ c.toNat && c.toNat ≤ 13) else inRuns Table.blank c.toNat

/-- Word characters of patterns: letters, marks, decimal digits, connectors and joiners. -/
def isWordCharacter (c : Char) : Bool :=
  if isAscii c then c.isAlphanum || c == '_'
  else inRuns Table.alphabetic c.toNat || inRuns Table.mark c.toNat ||
    inRuns Table.decimalDigit c.toNat || inRuns Table.connector c.toNat ||
    c.toNat == 0x200C || c.toNat == 0x200D

/-- Characters that have case. -/
def isCased (c : Char) : Bool :=
  isUpper c || isLower c || inRuns Table.titlecase c.toNat

/-- Characters that the search for a cased neighbour passes over. -/
def isCaseIgnorable (c : Char) : Bool :=
  if isAscii c then [39, 46, 58, 94, 96].contains c.toNat
  else inRuns Table.caseIgnorable c.toNat

/-! ## Case maps -/

/-- The capital dotted I is the one character whose lower case is two characters. -/
def lowerChars (c : Char) : List Char :=
  if isAscii c then [c.toLower]
  else if c.toNat == 0x130 then ['i', '\u0307']
  else [Char.ofNat (shifted Table.lower c.toNat)]

def upperChars (c : Char) : List Char :=
  if isAscii c then [c.toUpper]
  else match Table.expandingUpper.find? (·.1 == c.toNat) with
    | some (_, codes) => codes.map Char.ofNat
    | none => [Char.ofNat (shifted Table.upper c.toNat)]

/-- One representative per class of characters that differ only in case. -/
def foldCase (c : Char) : Char :=
  if isAscii c then c.toLower else Char.ofNat (shifted Table.fold c.toNat)

/-- The next character that casing does not look through has case. -/
def leadsToCased (cs : List Char) : Bool :=
  match cs.dropWhile isCaseIgnorable with
  | c :: _ => isCased c
  | [] => false

/-- Lower case of a text read after `before` (nearest character first): a capital sigma is final
when a cased character precedes it and none follows. -/
def lowerCaseAfter (before : List Char) : List Char → List Char
  | [] => []
  | c :: rest =>
    (if c == 'Σ' then
        [if leadsToCased before && !leadsToCased rest then 'ς' else 'σ']
      else lowerChars c) ++ lowerCaseAfter (c :: before) rest

def lowerCase (text : String) : String :=
  String.ofList (lowerCaseAfter [] text.toList)

def upperCase (text : String) : String :=
  String.ofList (text.toList.flatMap upperChars)

/-- The text without white space at either end. -/
def trim (text : String) : String :=
  String.ofList ((text.toList.dropWhile isBlank).reverse.dropWhile isBlank).reverse

end ResourceApi.Text
