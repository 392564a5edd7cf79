import ResourceApi.Text.Character

/-!
# Patterns

Regular expressions over Unicode text.  `Pattern.ends` gives every position at which a match that
starts at a given position can end, so that a text has a match exactly if some position has an end;
which of several matches is preferred plays no part.
-/

namespace ResourceApi

/-- A set of characters. -/
inductive CharSet where
  | any
  | range (first last : Char)
  | digit
  | word
  | blank
  | union (left right : CharSet)
  | inter (left right : CharSet)
  | compl (set : CharSet)
  | empty
deriving DecidableEq, Repr

namespace CharSet

def single (c : Char) : CharSet := .range c c

def has : CharSet → Char → Bool
  | .any, _ => true
  | .range first last, c => first ≤ c && c ≤ last
  | .digit, c => Text.isDecimalDigit c
  | .word, c => Text.isWordCharacter c
  | .blank, c => Text.isBlank c
  | .union left right, c => left.has c || right.has c
  | .inter left right, c => left.has c && right.has c
  | .compl set, c => !set.has c
  | .empty, _ => false

/-- The characters that differ from `c` only in case, `c` among them. -/
def caseVariants (c : Char) : List Char :=
  let folded := Text.foldCase c
  let inverse := Text.Table.fold.filterMap fun (first, last, step, shift) ↦
    let code := ((folded.toNat : Int) - shift).toNat
    if first ≤ code && code ≤ last && (code - first) % step == 0 then some (Char.ofNat code)
    else none
  c :: folded :: folded.toUpper :: inverse

/-- Membership up to case: ranges are closed under case before complements are taken. -/
def hasFolded : CharSet → Char → Bool
  | .range first last, c => (caseVariants c).any fun d ↦ first ≤ d && d ≤ last
  | .union left right, c => left.hasFolded c || right.hasFolded c
  | .inter left right, c => left.hasFolded c && right.hasFolded c
  | .compl set, c => !set.hasFolded c
  | set, c => set.has c

end CharSet

/-- A condition on a position. -/
inductive Anchor where
  | textStart
  | textEnd
  | lineStart
  | lineEnd
  | wordBoundary
  | noWordBoundary
deriving DecidableEq, Repr

inductive Pattern where
  | nothing
  | one (set : CharSet) (foldCase : Bool)
  | anchor (condition : Anchor)
  | seq (first second : Pattern)
  | either (left right : Pattern)
  | repeated (body : Pattern) (least : Nat) (most : Option Nat)
  | group (name : Option String) (body : Pattern)
deriving Repr

namespace Pattern

def wordAt (text : Array Char) (i : Nat) : Bool := (text[i]?.map Text.isWordCharacter).getD false

/-- A word character on exactly one side of the position. -/
def atBoundary (text : Array Char) (i : Nat) : Bool :=
  (i > 0 && wordAt text (i - 1)) != wordAt text i

/-- The condition is met at position `i` of the text. -/
def meets (text : Array Char) (i : Nat) (condition : Anchor) : Bool :=
  match condition with
  | .textStart => i == 0
  | .textEnd => i == text.size
  | .lineStart => i == 0 || text[i - 1]? == some '\n'
  | .lineEnd => i == text.size || text[i]? == some '\n'
  | .wordBoundary => atBoundary text i
  | .noWordBoundary => !atBoundary text i

/-- Positions reachable by one step from any of the given ones, without repetition. -/
def advance (step : Nat → List Nat) (positions : List Nat) : List Nat :=
  (positions.flatMap step).eraseDups

/-- Positions reachable by exactly `n` steps. -/
def steps (step : Nat → List Nat) : Nat → List Nat → List Nat
  | 0, positions => positions
  | n + 1, positions => steps step n (advance step positions)

/-- Positions reachable by at most `n` steps. -/
def within (step : Nat → List Nat) : Nat → List Nat → List Nat
  | 0, positions => positions
  | n + 1, positions =>
    let further := (advance step positions).filter fun i ↦ !positions.contains i
    if further.isEmpty then positions else within step n (positions ++ further)

/-- The ends of the matches that start at `i`, without repetition. -/
def ends (text : Array Char) : Pattern → Nat → List Nat
  | .nothing, i => [i]
  | .one set foldCase, i =>
    match text[i]? with
    | some c => if (if foldCase then set.hasFolded c else set.has c) then [i + 1] else []
    | none => []
  | .anchor condition, i => if meets text i condition then [i] else []
  | .seq first second, i => advance (ends text second) (ends text first i)
  | .either left right, i => (ends text left i ++ ends text right i).eraseDups
  | .repeated body least most, i =>
    let reached := steps (ends text body) least [i]
    match most with
    | none => within (ends text body) (text.size + 1) reached
    | some most => within (ends text body) (most - least) reached
  | .group _ body, i => ends text body i

/-- The pattern matches somewhere in the text. -/
def isMatch (pattern : Pattern) (text : String) : Bool :=
  let chars := text.toList.toArray
  (List.range (chars.size + 1)).any fun i ↦ !(pattern.ends chars i).isEmpty

/-- The names of the groups, from left to right. -/
def groupNames : Pattern → List String
  | .seq first second => first.groupNames ++ second.groupNames
  | .either left right => left.groupNames ++ right.groupNames
  | .repeated body _ _ => body.groupNames
  | .group name body => name.toList ++ body.groupNames
  | _ => []

/-- The number of items once every repetition is written out. -/
def unrolledSize : Pattern → Nat
  | .nothing | .one .. | .anchor _ => 1
  | .seq first second => first.unrolledSize + second.unrolledSize
  | .either left right => left.unrolledSize + right.unrolledSize
  | .repeated body least most => body.unrolledSize * max 1 (most.getD least)
  | .group _ body => body.unrolledSize

end Pattern
end ResourceApi
