import ResourceApi.Pattern
import ResourceApi.Text.Reader
import ResourceApi.Json.Reader

/-!
# Reading patterns

The written form of patterns: literals, classes with ranges and set operations, anchors, groups,
alternation and repetition, with the flags `i` (fold case), `m` (lines), `s` (the dot takes line
ends) and `x` (blanks and comments are skipped).  A text that is no pattern, such as one with an
unbalanced bracket or a repetition of nothing, is refused.
-/

namespace ResourceApi.Pattern

open Text Text.Reader

structure Flags where
  foldCase : Bool
  lines : Bool
  dotAll : Bool
  spaced : Bool
deriving DecidableEq, Repr

def Flags.initial : Flags := ⟨false, false, false, false⟩

/-! ## Escapes -/

def isMeta (c : Char) : Bool := "\\.+*?()|[]\x7b\x7d^$#&-~".toList.contains c

/-- Characters other than ASCII letters and digits may be escaped without need. -/
def isEscapable (c : Char) : Bool :=
  isMeta c || (c.toNat < 128 && !c.isAlphanum && c != '<' && c != '>')

def controlEscape? : Char → Option Char
  | 'a' => some '\x07'
  | 'f' => some '\x0c'
  | 't' => some '\t'
  | 'n' => some '\n'
  | 'r' => some '\r'
  | 'v' => some '\x0b'
  | _ => none

def classEscape? : Char → Option CharSet
  | 'd' => some .digit
  | 'D' => some (.compl .digit)
  | 's' => some .blank
  | 'S' => some (.compl .blank)
  | 'w' => some .word
  | 'W' => some (.compl .word)
  | _ => none

def scalar? (code : Nat) : Option Char :=
  if code.isValidChar then some (Char.ofNat code) else none

/-- Digits of a character code, in braces or of a fixed number. -/
def hexCode (digits : Nat) : Reader Char := do
  let isHex := fun c ↦ (Json.hexValue? c).isSome
  let code ← (do
      char '\x7b'
      let code ← takeWhile1 isHex
      char '\x7d'
      return code) <|> times (satisfy isHex) digits
  match (Json.hexNumber? code).bind scalar? with
  | some c => return c
  | none => failure

/-- A character written after a backslash. -/
def escapedChar : Reader Char := do
  let c ← satisfy fun _ ↦ true
  match controlEscape? c with
  | some control => return control
  | none =>
    if c == 'x' then hexCode 2
    else if c == 'u' then hexCode 4
    else if c == 'U' then hexCode 8
    else if isEscapable c then return c
    else failure

/-! ## Classes -/

/-- One operand of a class: a character, which can end a range, or a set. -/
inductive ClassAtom where
  | char (c : Char)
  | set (chars : CharSet)

def ClassAtom.toSet : ClassAtom → CharSet
  | .char c => .single c
  | .set chars => chars

def classAtom : Reader ClassAtom := do
  let c ← satisfy fun _ ↦ true
  if c == '\\' then
    (do
      let letter ← satisfy fun c ↦ (classEscape? c).isSome
      return .set ((classEscape? letter).getD .empty)) <|>
    (.char <$> escapedChar)
  else return .char c

def rangeOf : List (Char × Char) → CharSet
  | [] => .empty
  | (first, last) :: rest => .union (.range first last) (rangeOf rest)

def namedClass? : String → Option CharSet
  | "alnum" => some (rangeOf [('0', '9'), ('A', 'Z'), ('a', 'z')])
  | "alpha" => some (rangeOf [('A', 'Z'), ('a', 'z')])
  | "ascii" => some (rangeOf [('\x00', '\x7f')])
  | "blank" => some (rangeOf [('\t', '\t'), (' ', ' ')])
  | "cntrl" => some (rangeOf [('\x00', '\x1f'), ('\x7f', '\x7f')])
  | "digit" => some (rangeOf [('0', '9')])
  | "graph" => some (rangeOf [('!', '~')])
  | "lower" => some (rangeOf [('a', 'z')])
  | "print" => some (rangeOf [(' ', '~')])
  | "punct" => some (rangeOf [('!', '/'), (':', '@'), ('[', '\x60'), ('\x7b', '~')])
  | "space" => some (rangeOf [('\t', '\r'), (' ', ' ')])
  | "upper" => some (rangeOf [('A', 'Z')])
  | "word" => some (rangeOf [('0', '9'), ('A', 'Z'), ('a', 'z'), ('_', '_')])
  | "xdigit" => some (rangeOf [('0', '9'), ('A', 'F'), ('a', 'f')])
  | _ => none

def namedClass : Reader CharSet := do
  exactly "[:"
  let negated ← present (char '^')
  let name ← takeWhile1 Char.isAlpha
  exactly ":]"
  match namedClass? (String.ofList name) with
  | some set => return if negated then .compl set else set
  | none => failure

/-- A range, or an atom that no range starts. -/
def classRange : Reader CharSet := do
  let first ← classAtom
  let range ← maybe (char '-' *> notFollowedBy (fun c ↦ c == ']' || c == '-') *> classAtom)
  match first, range with
  | atom, none => return atom.toSet
  | .char first, some (.char last) => if first ≤ last then return .range first last else failure
  | _, some _ => failure

/-- Operations on sets within a class. -/
inductive SetOperation where
  | intersection
  | difference
  | symmetricDifference

def SetOperation.apply (left right : CharSet) : SetOperation → CharSet
  | .intersection => .inter left right
  | .difference => .inter left (.compl right)
  | .symmetricDifference =>
    .union (.inter left (.compl right)) (.inter right (.compl left))

def setOperation : Reader SetOperation :=
  (exactly "&&" *> pure .intersection) <|>
  (exactly "--" *> pure .difference) <|>
  (exactly "~~" *> pure .symmetricDifference)

/-- Items up to the next operation or the end of the class. -/
def classItems (nested : Reader CharSet) : Reader CharSet := do
  let items ← many (do
    absent setOperation
    absent (char ']')
    namedClass <|> nested <|> (absent (char '[') *> classRange))
  return items.foldl .union .empty

/-- A bracketed class, with `nested` for the classes inside. -/
def classBody (nested : Reader CharSet) : Reader CharSet := do
  char '['
  let negated ← present (char '^')
  let dashes ← takeWhile (· == '-')
  let bracket ← if dashes.isEmpty then present (char ']') else pure false
  let initial : CharSet := .union (if dashes.isEmpty then .empty else .single '-')
    (if bracket then .single ']' else .empty)
  let first ← classItems nested
  let operands ← many (do
    let operation ← setOperation
    return (operation, ← classItems nested))
  char ']'
  let set := operands.foldl (fun left (operation, right) ↦ operation.apply left right)
    (.union initial first)
  return if negated then .compl set else set

def bracketClass : Nat → Reader CharSet
  | 0 => failure
  | depth + 1 => classBody (bracketClass depth)

/-! ## Repetition -/

def count : Reader Nat := do
  skipWhile isBlank
  let digits ← takeWhile1 Char.isDigit
  skipWhile isBlank
  return digits.foldl (fun n c ↦ n * 10 + (c.toNat - '0'.toNat)) 0

/-- The bounds of a repetition. -/
def bounds : Reader (Nat × Option Nat) :=
  (char '*' *> pure (0, none)) <|>
  (char '+' *> pure (1, none)) <|>
  (char '?' *> pure (0, some 1)) <|> do
    char '\x7b'
    let least ← count
    let most ← (char ',' *> maybe count) <|> pure (some least)
    char '\x7d'
    match most with
    | some most => if least ≤ most then return (least, some most) else failure
    | none => return (least, none)

def startsBounds (c : Char) : Bool := c == '*' || c == '+' || c == '?' || c == '\x7b'

/-- Repetitions written after an item, each of which may be marked as reluctant. -/
def repetitions (body : Pattern) : Reader Pattern := do
  let all ← many (bounds <* maybe (char '?'))
  notFollowedBy startsBounds
  return all.foldl (fun body (least, most) ↦ .repeated body least most) body

/-! ## Items -/

/-- Blanks and comments, which are skipped under the flag `x`. -/
def spacing (flags : Flags) : Reader Unit :=
  if flags.spaced then do
    let _ ← many ((takeWhile1 isBlank *> pure ()) <|>
      (char '#' *> skipWhile (· != '\n')))
    return ()
  else pure ()

def lineAnchor (flags : Flags) (line text : Anchor) : Pattern :=
  .anchor (if flags.lines then line else text)

def anchorEscape? : Char → Option Anchor
  | 'A' => some .textStart
  | 'z' => some .textEnd
  | 'b' => some .wordBoundary
  | 'B' => some .noWordBoundary
  | _ => none

/-- An item written after a backslash. -/
def escape (flags : Flags) : Reader Pattern :=
  (do
    let letter ← satisfy fun c ↦ (classEscape? c).isSome
    return .one ((classEscape? letter).getD .empty) flags.foldCase) <|>
  (do
    let letter ← satisfy fun c ↦ (anchorEscape? c).isSome
    return .anchor ((anchorEscape? letter).getD .textStart)) <|>
  (do
    let c ← escapedChar
    return .one (.single c) flags.foldCase)

def literalChar (flags : Flags) : Reader Pattern := do
  let c ← satisfy fun c ↦ !("\\()|[*+?\x7b".toList.contains c)
  return match c with
    | '.' => .one (if flags.dotAll then .any else .compl (.single '\n')) false
    | '^' => lineAnchor flags .lineStart .textStart
    | '$' => lineAnchor flags .lineEnd .textEnd
    | c => .one (.single c) flags.foldCase

def Flags.set (flags : Flags) (value : Bool) : Char → Option Flags
  | 'i' => some { flags with foldCase := value }
  | 'm' => some { flags with lines := value }
  | 's' => some { flags with dotAll := value }
  | 'x' => some { flags with spaced := value }
  | 'U' => some flags
  | 'u' => if value then some flags else none
  | _ => none

/-- Flags as in `(?i-s)`; what stands after the minus is switched off. -/
def readFlags (flags : Flags) : Reader Flags := do
  let on ← takeWhile Char.isAlpha
  let off ← maybe (char '-' *> takeWhile1 Char.isAlpha)
  let all := on ++ off.getD []
  if all.isEmpty || all.eraseDups.length != all.length then failure
  match do (off.getD []).foldlM (Flags.set · false) (← on.foldlM (Flags.set · true) flags) with
  | some flags => return flags
  | none => failure

def groupName : Reader String := do
  (exactly "?P<" <|> exactly "?<")
  let first ← satisfy fun c ↦ isAlphabetic c || c == '_'
  let rest ← takeWhile fun c ↦
    isAlphanumeric c || c == '_' || c == '.' || c == '[' || c == ']'
  char '>'
  return String.ofList (first :: rest)

/-! ## Sequences and alternatives -/

mutual

/-- Items up to a bar, a closing parenthesis or the end; flags set on the way hold for the rest of
the group, and so for the alternatives after it. -/
def sequence (fuel : Nat) (flags : Flags) : Reader (Pattern × Flags) :=
  match fuel with
  | 0 => failure
  | fuel + 1 => do
    spacing flags
    (do
      exactly "(?"
      let flags ← readFlags flags
      char ')'
      spacing flags
      notFollowedBy startsBounds
      sequence fuel flags) <|>
    (do
      let item ← item fuel flags
      let item ← repetitions item
      let (rest, flags) ← sequence fuel flags
      return (.seq item rest, flags)) <|>
    (notFollowedBy (fun c ↦ startsBounds c || !(c == '|' || c == ')')) *>
      pure (.nothing, flags))

def item (fuel : Nat) (flags : Flags) : Reader Pattern :=
  match fuel with
  | 0 => failure
  | fuel + 1 =>
    (do
      char '('
      let name ← maybe groupName
      let body ← alternatives fuel flags
      char ')'
      return .group name body) <|>
    (do
      exactly "(?:"
      let body ← alternatives fuel flags
      char ')'
      return body) <|>
    (do
      exactly "(?"
      let flags ← readFlags flags
      char ':'
      let body ← alternatives fuel flags
      char ')'
      return body) <|>
    (do
      let set ← bracketClass fuel
      return .one set flags.foldCase) <|>
    (char '\\' *> escape flags) <|>
    literalChar flags

def alternatives (fuel : Nat) (flags : Flags) : Reader Pattern :=
  match fuel with
  | 0 => failure
  | fuel + 1 => do
    let (first, flags) ← sequence fuel flags
    (do
      char '|'
      let rest ← alternatives fuel flags
      return .either first rest) <|> pure first

end

/-- Patterns that come to more items than this when written out are refused. -/
def maxUnrolledSize : Nat := 400000

/-- No group name is used twice, and the pattern is not too large. -/
def isAdmissible (pattern : Pattern) : Bool :=
  pattern.groupNames.eraseDups.length == pattern.groupNames.length &&
    pattern.unrolledSize ≤ maxUnrolledSize

/-- The pattern that a text denotes. -/
def parse? (text : String) : Option Pattern :=
  let chars := text.toList
  ((alternatives (3 * chars.length + 3) Flags.initial).readAll chars).filter isAdmissible

end ResourceApi.Pattern
